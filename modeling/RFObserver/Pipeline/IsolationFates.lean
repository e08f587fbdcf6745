import RFObserver.Pipeline.IsolationRuns

namespace RFObserver

def QueueItem.rank : QueueItem → Nat
  | .stop => 2
  | .batch taken => 7 + 2 * taken.size

def DrainPhase.rank : DrainPhase → Nat
  | .taking => 2
  | .holding .stop | .counting _ => 3
  | .releasing _ => 4
  | .holding (.batch _) => 5

/-- How far the worker is from its next turn of the loop. -/
def WorkerPhase.rank : WorkerPhase → Nat
  | .ended => 0
  | .exiting => 1
  | .waiting => 2
  | .looping | .stopping => 3
  | .finishing => 4
  | .releasing _ => 5
  | .isolating _ works => 6 + works.length
  | .snapshotting _ rest _ lazy snapped => 7 + 2 * rest.length + lazy.length + snapped.length
  | .gating batch => 8 + 2 * batch.size
  | .draining drain => drain.rank

def WorkerPhase.inLoop : WorkerPhase → Bool
  | .exiting | .ended => false
  | _ => true

namespace IsolationStage

variable {s s' : IsolationStage} {batch : IsolationBatch} {settings : IsolationSettings}

/-- What the worker does, or the `submit` that has the lock. -/
def Act.byWorker : Act → Bool
  | .works | .gates _ | .reads _ | .isolates _ | .counts => true
  | .submits _ | .starts | .stops | .controls => false

/-- The worker is in its loop and no stop is under way. -/
structure Working (s : IsolationStage) : Prop where
  control : s.control = .idle
  inLoop : s.worker.inLoop = true

theorem worker_of_inLoop (inLoop : s.worker.inLoop = true) : s.thread = some s.worker := by
  cases thread : s.thread with
  | none =>
    rw [worker, thread] at inLoop
    cases inLoop
  | some phase => rw [worker, thread]; rfl

theorem release_of_free (free : s.submitting = none) :
    ∃ s', s.release batch = some s' ∧ s.Frame s' ∧ s'.queue = s.queue ∧ s'.submitting = none := by
  unfold IsolationStage.release
  split_ifs with whole locked
  · exact ⟨_, rfl, ⟨rfl, rfl, rfl⟩, rfl, free⟩
  · exact absurd (Option.isNone_iff_eq_none.mpr free) locked
  · exact ⟨_, rfl, ⟨rfl, rfl, rfl⟩, rfl, free⟩

/-- A step that the worker takes, and what it leaves. -/
structure Advances (s s' : IsolationStage) (phase : WorkerPhase) : Prop where
  goes : ∃ act, act.byWorker = true ∧ s.step act = some s'
  control : s'.control = s.control
  thread : s'.thread = some phase
  inLoop : phase.inLoop = true
  rank : (s'.queue.map QueueItem.rank).sum + phase.rank < (s.queue.map QueueItem.rank).sum + s.worker.rank
  free : s'.submitting = none

/-- Unless all is done the worker has a step to take. -/
theorem Kept.advances (kept : s.Kept) (working : s.Working) (free : s.submitting = none) :
    s.unfinishedTasks = 0 ∨ ∃ s' phase, s.Advances s' phase := by
  have thread := worker_of_inLoop working.inLoop
  have tasks := kept.tasks
  rw [working.control] at tasks
  have works : ∀ {s'}, s.work s.worker = some s' → s.step .works = some s' := fun goes => by
    rw [IsolationStage.step, thread]
    exact goes
  cases phase : s.worker with
  | looping =>
    rw [phase] at works
    refine .inr ⟨_, if s.stopEvent then .draining .taking else .waiting, ⟨.works, rfl, works rfl⟩, rfl, rfl, ?_, ?_,
      free⟩
    · split_ifs <;> rfl
    · rw [phase]
      split_ifs <;> exact Nat.lt_succ_self _
  | waiting =>
    rw [phase] at works tasks
    cases queue : s.queue with
    | nil =>
      rw [queue] at tasks
      exact .inl tasks
    | cons item rest =>
      cases item with
      | stop =>
        refine .inr ⟨{ s with queue := rest, thread := some .stopping }, .stopping, ⟨.works, rfl, works ?_⟩, rfl, rfl,
          rfl, ?_, free⟩
        · rw [IsolationStage.work, queue]
        rw [phase, queue, List.map_cons, List.sum_cons]
        simp only [WorkerPhase.rank, QueueItem.rank]
        omega
      | batch taken =>
        refine .inr ⟨{ s with queue := rest, thread := some (.gating taken) }, .gating taken,
          ⟨.works, rfl, works ?_⟩, rfl, rfl, rfl, ?_, free⟩
        · rw [IsolationStage.work, queue]
        rw [phase, queue, List.map_cons, List.sum_cons]
        simp only [WorkerPhase.rank, QueueItem.rank]
        omega
  | stopping =>
    rw [phase] at works
    refine .inr ⟨_, .draining .taking, ⟨.works, rfl, works rfl⟩, rfl, rfl, rfl, ?_, free⟩
    rw [phase]
    exact Nat.lt_succ_self _
  | gating taken =>
    rw [phase] at thread
    have fits := gate_length (s := s) taken.candidates taken.sampleRateHz 0
    refine .inr ⟨s.gated taken 0, .snapshotting taken (s.gate taken.candidates taken.sampleRateHz 0).1 0 [] [],
      ⟨.gates 0, rfl, by rw [IsolationStage.step, thread]⟩, rfl, rfl, rfl, ?_, free⟩
    rw [phase]
    simp only [WorkerPhase.rank, IsolationBatch.size, List.length_nil]
    refine Nat.add_lt_add_left ?_ _
    omega
  | snapshotting taken rest used lazy snapped =>
    cases rest with
    | nil =>
      rw [phase] at works
      refine .inr ⟨_, .isolating taken (lazy ++ snapped), ⟨.works, rfl, works rfl⟩, rfl, rfl, rfl, ?_, free⟩
      rw [phase]
      simp only [WorkerPhase.rank, List.length_append, List.length_nil]
      refine Nat.add_lt_add_left ?_ _
      omega
    | cons cand rest =>
      rw [phase] at thread
      obtain ⟨used', lazy', snapped', moves, perm⟩ := @snapshot_moves s taken cand rest used lazy snapped .raises
      have length := perm.length_eq
      have goes : s.step (.reads .raises) =
          some { s with thread := some (.snapshotting taken rest used' lazy' snapped') } := by
        rw [IsolationStage.step, thread, ← moves]
      refine .inr ⟨_, _, ⟨_, rfl, goes⟩, rfl, rfl, rfl, ?_, free⟩
      rw [phase]
      simp only [List.length_append, List.length_map, List.length_cons] at length
      simp only [WorkerPhase.rank, List.length_cons]
      refine Nat.add_lt_add_left ?_ _
      omega
  | isolating taken rest =>
    cases rest with
    | nil =>
      rw [phase] at works
      refine .inr ⟨_, .releasing taken, ⟨.works, rfl, works rfl⟩, rfl, rfl, rfl, ?_, free⟩
      rw [phase]
      exact Nat.lt_succ_self _
    | cons work rest =>
      rw [phase] at thread
      have goes (outcome : IsolationOutcome) : s.step (.isolates outcome) =
          some { s.isolate taken work outcome with thread := some (.isolating taken rest) } := by
        rw [IsolationStage.step, thread]
      refine .inr ⟨_, _, ⟨_, rfl, goes ⟨.raises, none, false, false, false, false, false⟩⟩, rfl, rfl, rfl, ?_, free⟩
      rw [phase]
      exact Nat.lt_succ_self _
  | releasing taken =>
    rw [phase] at works
    obtain ⟨after, released, ⟨_, control, _⟩, queue, later⟩ := release_of_free free
    have goes : s.step .works = some { after with thread := some .finishing } := by
      rw [works]
      rw [IsolationStage.work, released]
      rfl
    refine .inr ⟨_, _, ⟨_, rfl, goes⟩, control, rfl, rfl, ?_, later⟩
    rw [phase, queue]
    exact Nat.lt_succ_self _
  | finishing =>
    rw [phase] at works
    refine .inr ⟨_, .looping, ⟨.works, rfl, works rfl⟩, rfl, rfl, rfl, ?_, free⟩
    rw [phase]
    exact Nat.lt_succ_self _
  | draining drain =>
    rw [phase] at works tasks
    cases drain with
    | taking =>
      cases queue : s.queue with
      | nil =>
        rw [queue] at tasks
        exact .inl tasks
      | cons item rest =>
        have goes : s.step .works = some { s with queue := rest, thread := some (.draining (.holding item)) } := by
          rw [works]
          rw [IsolationStage.work, IsolationStage.drain, queue]
          rfl
        refine .inr ⟨_, _, ⟨_, rfl, goes⟩, rfl, rfl, rfl, ?_, free⟩
        rw [phase, queue, List.map_cons, List.sum_cons]
        cases item <;> simp only [WorkerPhase.rank, DrainPhase.rank, QueueItem.rank] <;> omega
    | holding item =>
      cases item with
      | stop =>
        refine .inr ⟨{ s.taskDone with thread := some (.draining .taking) }, _, ⟨_, rfl, works rfl⟩, rfl, rfl, rfl, ?_,
          free⟩
        rw [phase]
        exact Nat.lt_succ_self _
      | batch taken =>
        refine .inr ⟨{ s.taskDone with thread := some (.draining (.releasing taken)) }, _, ⟨_, rfl, works rfl⟩, rfl, rfl,
          rfl, ?_, free⟩
        rw [phase]
        exact Nat.lt_succ_self _
    | releasing taken =>
      obtain ⟨after, released, ⟨_, control, _⟩, queue, later⟩ := release_of_free free
      have goes : s.step .works = some { after with thread := some (.draining (.counting taken)) } := by
        rw [works]
        rw [IsolationStage.work, IsolationStage.drain, released]
        rfl
      refine .inr ⟨_, _, ⟨_, rfl, goes⟩, control, rfl, rfl, ?_, later⟩
      rw [phase, queue]
      exact Nat.lt_succ_self _
    | counting taken =>
      refine .inr ⟨{ s.count .queueFull taken.candidates.length with thread := some (.draining .taking) }, _,
        ⟨_, rfl, works rfl⟩, rfl, rfl, rfl, ?_, free⟩
      rw [phase]
      exact Nat.lt_succ_self _
  | exiting | ended =>
    have inLoop := working.inLoop
    rw [phase] at inLoop
    cases inLoop

/-- The worker's own steps bring the count of unfinished tasks to 0. -/
theorem Kept.idles (kept : s.Kept) (working : s.Working) (free : s.submitting = none) :
    ∃ s', Runs.Reach IsolationStage.step s (fun _ act => Act.byWorker act) s' ∧ s'.unfinishedTasks = 0 := by
  induction rank : (s.queue.map QueueItem.rank).sum + s.worker.rank using Nat.strong_induction_on generalizing s with
  | _ n ih =>
    rcases kept.advances working free with done | ⟨s', phase, advances⟩
    · exact ⟨s, .start, done⟩
    · obtain ⟨act, own, goes⟩ := advances.goes
      have worker : s'.worker = phase := by rw [IsolationStage.worker, advances.thread]; rfl
      have less := advances.rank
      rw [← worker, rank] at less
      obtain ⟨final, reach, done⟩ := ih _ less (kept.step goes)
        ⟨advances.control.trans working.control, worker ▸ advances.inLoop⟩ advances.free rfl
      exact ⟨final, reach.prepend own goes, done⟩

/-- So they do once the `submit` that has the lock is through. -/
theorem Kept.idles_after_submit (kept : s.Kept) (working : s.Working) :
    ∃ s', Runs.Reach IsolationStage.step s (fun _ act => Act.byWorker act) s' ∧ s'.unfinishedTasks = 0 := by
  cases submitting : s.submitting with
  | none => exact kept.idles working submitting
  | some taken =>
    have goes : s.step .counts = some { s with
        submitting := none
        wholePending := if taken.whole then s.wholePending + 1 else s.wholePending } := by
      rw [IsolationStage.step, submitting]
      rfl
    obtain ⟨final, reach, done⟩ := (kept.step goes).idles ⟨working.control, working.inLoop⟩ rfl
    exact ⟨final, reach.prepend rfl goes, done⟩

/-- The worker has ended, and nothing is left in the queue or with a drain. -/
structure Drained (s : IsolationStage) : Prop where
  ended : s.worker = .ended
  queue : s.queue = []
  control : s.control.held = .none

/-- The batches taken off the queue and not yet released. -/
def inFlight (s : IsolationStage) : List IsolationBatch := s.worker.held.batches ++ s.control.held.batches

/-- Every candidate has one fate, the count of whole captures is that of the
batches queued or in flight, and no task stays unfinished. -/
structure OneFate (s : IsolationStage) : Prop where
  received : s.Drained → s.stats .received = s.stats .gatedOut + s.stats .picked + s.stats .queueFull
  picked : s.Drained → s.stats (.state .isolated) + s.stats (.state .iqExpired) + s.stats (.state .tooLong) +
    s.stats (.state .error) = s.stats .picked
  perm : s.Drained → s.picks.Perm (s.fates.map (·.cand))
  picks : s.stats .picked = s.picks.length
  states : ∀ state, s.stats (.state state) = s.fates.countP (·.state = state)
  reasons : s.stats (.expired .overwritten) + s.stats (.expired .unwritten) + s.stats (.expired .nopos) =
    s.fates.countP fun fate => fate.ring && fate.state = .iqExpired
  wholes : s.submitting = none → s.wholePending = (batches s.queue ++ s.inFlight).countP (·.whole)
  room : s.wholePending ≤ maxWholeCaptureBatches
  unfinished : s.unfinishedTasks = s.queue.length + s.worker.held.tasks + s.control.held.tasks
  drained : s.Drained → s.unfinishedTasks = 0
  idles : s.Working → ∃ s', Runs.Reach step s (fun _ act => Act.byWorker act) s' ∧ s'.unfinishedTasks = 0
  joined : s.control = .idle → s.stopEvent = true → s.thread = none → s.Drained

theorem fates_length (fates : List BurstFate) :
    fates.countP (·.state = .isolated) + fates.countP (·.state = .iqExpired) + fates.countP (·.state = .tooLong) +
      fates.countP (·.state = .error) = fates.length := by
  induction fates with
  | nil => rfl
  | cons fate fates ih =>
    simp only [List.countP_cons, List.length_cons]
    cases fate.state <;> simp <;> omega

theorem placed_nonneg (submitting : Option IsolationBatch) : 0 ≤ placed submitting := by
  cases submitting with
  | none => exact le_rfl
  | some taken =>
    simp only [placed, Option.elim_some]
    split_ifs <;> decide

theorem Kept.oneFate (kept : s.Kept) (joined : s.Joined) : s.OneFate := by
  have idles := kept.idles_after_submit
  obtain ⟨tasks, wholes, room, cands, perm, picked, states, reasons⟩ := kept
  have settled : s.Drained → s.picks.Perm (s.fates.map (·.cand)) := by
    rintro ⟨ended, _, _⟩
    rw [ended] at perm
    simpa only [WorkerPhase.unfated, List.append_nil] using perm
  refine ⟨?_, ?_, settled, picked, states, reasons, ?_, ?_, ?_, ?_, idles, ?_⟩
  · rintro ⟨ended, queue, control⟩
    rw [ended, queue, control] at cands
    exact cands
  · intro drained
    rw [states, states, states, states, picked, fates_length, (settled drained).length_eq, List.length_map]
  · intro free
    rw [free] at wholes
    exact (add_zero _).symm.trans wholes
  · have placed := placed_nonneg s.submitting
    omega
  · simp only [Held.add] at tasks
    omega
  · rintro ⟨ended, queue, control⟩
    rw [ended, queue, control] at tasks
    exact tasks
  · intro idle stopped absent
    rw [Joined, idle] at joined
    refine ⟨?_, joined stopped absent, ?_⟩
    · rw [worker, absent]
      rfl
    · rw [idle]
      rfl

abbrev Reach (settings : IsolationSettings) : IsolationStage → Prop :=
  Runs.Reach step (create settings) fun _ _ => True

/-- In every run every candidate burst has one fate. -/
theorem Reach.isolates_once (reach : Reach settings s) : s.OneFate := by
  have both : s.Kept ∧ s.Joined := by
    refine Runs.Reach.invariant (I := fun s => s.Kept ∧ s.Joined) ?_ ?_ reach
    · exact ⟨create_kept settings, nofun⟩
    · exact fun _ _ _ holds _ goes => ⟨holds.1.step goes, holds.2.step goes⟩
  exact both.1.oneFate both.2

def threePerSec : IsolationSettings := ⟨13, 3, 1 / 2, 2, true, true, true⟩

/-- A burst with positions, one that is too weak and one without positions. -/
def ringBatch : IsolationBatch :=
  ⟨[⟨⟨0, some 100, some 200⟩, 20⟩, ⟨⟨1, some 100, some 200⟩, 5⟩, ⟨⟨2, none, none⟩, 15⟩], 1000, .ring 4⟩

def sweepBatch : IsolationBatch := ⟨[⟨⟨3, none, none⟩, 40⟩], 1000, .wholeCapture⟩

/-- The ring's batch is isolated with an archive that raises; the sweep's is
drained by a stop that joins the worker in time. -/
def isolatedAndStopped : List Act :=
  let archiveRaises : IsolationOutcome := ⟨.raises, none, true, false, false, true, true⟩
  [.starts, .submits ringBatch, .counts, .works, .works, .gates 0, .reads (.samples 104), .reads .raises, .works,
    .isolates archiveRaises, .isolates archiveRaises, .works, .works, .works, .submits sweepBatch, .works, .counts,
    .stops, .controls, .controls, .controls, .controls, .controls, .controls, .controls, .works, .works, .works,
    .works, .controls, .controls]

theorem Reach.isolates_once_stopped :
    ∃ s, Reach threePerSec s ∧ (s.queue, s.thread, s.control) = ([], none, .idle) ∧
      [s.stats .received, s.stats .gatedOut, s.stats .picked, s.stats .queueFull] = [4, 1, 2, 1] ∧
      s.fates.map (·.state) = [.iqExpired, .isolated] ∧ s.OneFate := by
  have final : (Runs.follow step (create threePerSec) isolatedAndStopped).map (fun s =>
      ((s.queue, s.thread, s.control), [s.stats .received, s.stats .gatedOut, s.stats .picked, s.stats .queueFull],
        s.fates.map (·.state))) =
      some (([], none, .idle), [4, 1, 2, 1], [.iqExpired, .isolated]) := by decide +kernel
  obtain ⟨s, goes, ends⟩ := Option.map_eq_some_iff.mp final
  obtain ⟨ended, rest⟩ := Prod.mk.inj ends
  obtain ⟨counts, states⟩ := Prod.mk.inj rest
  have reach : Reach threePerSec s := Runs.Reach.of_follow goes
  exact ⟨s, reach, ended, counts, states, Reach.isolates_once reach⟩

end IsolationStage

end RFObserver
