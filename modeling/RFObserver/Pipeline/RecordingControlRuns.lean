import RFObserver.Pipeline.RecordingControl

namespace RFObserver
namespace RecordingControl

/-- No job is in hand before its "idle". -/
def Free (job : JobPhase) : Prop := job = .free ∨ job = .signalling

/-- The life of recording after recording: begun, recorded, its job handed
over, queued, in its body and closing, and at rest until the next begin. -/
inductive Life : RecordingState → Bool → Nat → List (Nat × Bool) → List Nat → JobPhase → List Nat → Prop
  | resting {state n job} : state = .idle ∨ state = .armed → Free job →
      Life state false n [] [] job (List.range' 1 n)
  | beginning {state n job} : state = .idle ∨ state = .armed → Free job →
      Life state true (n + 1) [] [] job (List.range' 1 n)
  | recording {n job} : Free job → Life .recording false (n + 1) [] [] job (List.range' 1 n)
  | handed {n wait job} : Free job → Life .finalizing false (n + 1) [(n + 1, wait)] [] job (List.range' 1 n)
  | queued {n job} : Free job → Life .finalizing false (n + 1) [] [n + 1] job (List.range' 1 n)
  | body {n} : Life .finalizing false (n + 1) [] [] (.body (n + 1)) (List.range' 1 n)
  | closing {n} : Life .finalizing false (n + 1) [] [] (.closing (n + 1)) (List.range' 1 (n + 1))

def Alive (c : RecordingControl) : Prop :=
  Life c.state c.beginning c.begun c.handover c.recctlQueue c.job c.finalized

variable {c c' : RecordingControl}

theorem Alive.beginRecording (alive : c.Alive) (free : c.beginning = false)
    (idle : c.state = .idle ∨ c.state = .armed) : c.beginRecording.Alive := by
  obtain ⟨state, _, begun, beginning, _, handover, queue, job, finalized, _, _, _⟩ := c
  simp only [Alive] at alive free idle
  cases alive with
  | resting rest job => exact .beginning rest job
  | beginning => cases free
  | _ => rcases idle with idle | idle <;> cases idle

theorem Alive.beginFlip (alive : c.Alive) (begins : c.beginning = true) : c.beginFlip.Alive := by
  obtain ⟨state, _, begun, beginning, _, handover, queue, job, finalized, _, _, _⟩ := c
  simp only [Alive] at alive begins
  cases alive with
  | beginning rest job => exact .recording job
  | _ => cases begins

/-- A change between "idle" and "armed". -/
theorem Alive.rest {state : RecordingState} (alive : c.Alive) (old : c.state = .idle ∨ c.state = .armed)
    (new : state = .idle ∨ state = .armed) : { c with state := state }.Alive := by
  obtain ⟨state, _, begun, beginning, _, handover, queue, job, finalized, _, _, _⟩ := c
  simp only [Alive] at alive old ⊢
  cases alive with
  | resting rest job => exact .resting new job
  | beginning rest job => exact .beginning new job
  | _ => rcases old with old | old <;> cases old

theorem Alive.flip (wait : Bool) (alive : c.Alive) (recording : c.state = .recording) : (c.flip wait).Alive := by
  obtain ⟨state, _, begun, beginning, _, handover, queue, job, finalized, _, _, _⟩ := c
  simp only [Alive] at alive recording
  cases alive with
  | recording job => exact .handed job
  | resting rest | beginning rest => rcases rest with rest | rest <;> cases rest.symm.trans recording
  | _ => cases recording

theorem Alive.scheduleRecctl {recording : Nat} {wait : Bool} (alive : c.Alive)
    (handed : (recording, wait) ∈ c.handover) : (c.scheduleRecctl recording wait).Alive := by
  obtain ⟨state, _, begun, beginning, _, handover, queue, job, finalized, _, _, _⟩ := c
  simp only [Alive] at alive handed
  cases alive with
  | handed job =>
    rw [List.mem_singleton] at handed
    cases handed
    simp only [RecordingControl.scheduleRecctl, Alive, List.erase_cons_head, List.nil_append]
    exact .queued job
  | _ => cases handed

theorem Alive.takeJob {recording : Nat} {rest : List Nat} (alive : c.Alive) (free : c.job = .free)
    (queued : c.recctlQueue = recording :: rest) : { c with job := .body recording, recctlQueue := rest }.Alive := by
  obtain ⟨state, _, begun, beginning, _, handover, queue, job, finalized, _, _, _⟩ := c
  simp only [Alive] at alive free queued ⊢
  cases alive with
  | queued job =>
    obtain ⟨rfl, rfl⟩ := List.cons.inj queued
    exact .body
  | _ => cases queued

theorem Alive.finalize {recording : Nat} (alive : c.Alive) (body : c.job = .body recording) :
    { c with job := .closing recording, finalized := c.finalized ++ [c.begun] }.Alive := by
  obtain ⟨state, _, begun, beginning, _, handover, queue, job, finalized, _, _, _⟩ := c
  simp only [Alive] at alive body ⊢
  cases alive with
  | @body n =>
    obtain rfl := JobPhase.body.inj body
    have more : List.range' 1 n ++ [n + 1] = List.range' 1 (n + 1) := by
      rw [List.range'_concat, Nat.one_mul, Nat.add_comm 1 n]
    rw [more]
    exact .closing
  | closing => cases body
  | resting _ job | beginning _ job | recording job | handed job | queued job =>
    rcases job with job | job <;> cases job.symm.trans body

theorem Alive.writeIdle {recording : Nat} (alive : c.Alive) (closing : c.job = .closing recording) :
    { c with job := .signalling, state := .idle }.Alive := by
  obtain ⟨state, _, begun, beginning, _, handover, queue, job, finalized, _, _, _⟩ := c
  simp only [Alive] at alive closing ⊢
  cases alive with
  | closing => exact .resting (Or.inl rfl) (Or.inr rfl)
  | body => cases closing
  | resting _ job | beginning _ job | recording job | handed job | queued job =>
    rcases job with job | job <;> cases job.symm.trans closing

theorem Alive.setDone (alive : c.Alive) (signalling : c.job = .signalling) :
    { c with job := .free, endDone := true }.Alive := by
  obtain ⟨state, _, begun, beginning, _, handover, queue, job, finalized, _, _, _⟩ := c
  simp only [Alive] at alive signalling ⊢
  cases alive with
  | resting rest job => exact .resting rest (Or.inl rfl)
  | beginning rest job => exact .beginning rest (Or.inl rfl)
  | recording job => exact .recording (Or.inl rfl)
  | handed job => exact .handed (Or.inl rfl)
  | queued job => exact .queued (Or.inl rfl)
  | body | closing => cases signalling

/-- The states other than the two are "idle" and "armed". -/
theorem rests {state : RecordingState} (other : ¬ (state = .recording ∨ state = .finalizing)) :
    state = .idle ∨ state = .armed := by
  cases state <;> simp at other ⊢

theorem Alive.startRecording (refused : Bool) (alive : c.Alive) (free : c.beginning = false) :
    (c.startRecording refused).Alive := by
  unfold RecordingControl.startRecording
  split_ifs with no busy
  · exact alive
  · exact alive
  · exact alive.beginRecording free (rests busy)

theorem Alive.armTrigger (refused : Bool) (alive : c.Alive) : (c.armTrigger refused).Alive := by
  unfold RecordingControl.armTrigger
  split_ifs with no idle
  · exact alive
  · exact alive.rest (Or.inl idle) (Or.inr rfl)
  · exact alive

theorem Alive.disarmTrigger (alive : c.Alive) : c.disarmTrigger.Alive := by
  unfold RecordingControl.disarmTrigger
  by_cases armed : c.state = .armed
  · rw [if_pos armed]
    exact alive.rest (Or.inr armed) (Or.inl rfl)
  · rw [if_neg armed]
    exact alive

theorem Alive.stopRecording (alive : c.Alive) : c.stopRecording.Alive := by
  unfold RecordingControl.stopRecording
  split
  · exact alive
  · exact alive
  · exact alive

theorem Alive.requestEnd (alive : c.Alive) : c.requestEnd.Alive := by
  unfold RecordingControl.requestEnd
  simp only
  split_ifs with recording
  · exact Alive.flip true alive recording
  · exact alive

theorem Alive.autoStop (alive : c.Alive) : c.autoStop.Alive := by
  unfold RecordingControl.autoStop
  split_ifs with recording
  · exact alive.flip false recording
  · exact alive

/-- A stop's closing write, when no job is open. -/
theorem Alive.closeStop (canWaitArmed : Bool) (alive : c.Alive) (done : c.state ≠ .finalizing) :
    (c.closeStop canWaitArmed).Alive := by
  unfold RecordingControl.closeStop
  by_cases recording : c.state = .recording
  · rw [if_neg (not_not_intro recording)]
    exact alive
  · rw [if_pos recording]
    have rest := rests (not_or.mpr ⟨recording, done⟩)
    cases canWaitArmed with
    | true => exact alive.rest rest (Or.inr rfl)
    | false => exact alive.rest rest (Or.inl rfl)

theorem Alive.checkPower (above refused : Bool) (alive : c.Alive) (free : c.beginning = false) :
    (c.checkPower above refused).Alive := by
  unfold RecordingControl.checkPower
  split_ifs with other hold low fires
  · exact alive
  · exact alive
  · exact alive
  · exact alive.beginRecording free (Or.inr (not_not.mp other))
  · exact alive

theorem Alive.checkTrigger (armed above refused : Bool) (alive : c.Alive) (free : c.beginning = false) :
    (c.checkTrigger armed above refused).Alive := by
  unfold RecordingControl.checkTrigger
  split_ifs with recording idle disarmed
  · exact alive
  · exact (alive.rest (Or.inl idle.1) (Or.inr rfl)).checkPower above refused free
  · exact alive.rest (Or.inr disarmed.1) (Or.inl rfl)
  · exact alive.checkPower above refused free

/-- Every step that meets the condition goes on with the life. -/
theorem Alive.step {a : Act} (alive : c.Alive) (orderly : c.StopsAfterJob a) (goes : c.step a = some c') :
    c'.Alive := by
  cases a with
  | start refused =>
    obtain ⟨free, rfl⟩ := by simpa [RecordingControl.step] using goes
    exact alive.startRecording refused free
  | beginFlip =>
    obtain ⟨begins, rfl⟩ := by simpa [RecordingControl.step] using goes
    exact alive.beginFlip begins
  | arm refused =>
    obtain ⟨-, rfl⟩ := by simpa [RecordingControl.step] using goes
    exact alive.armTrigger refused
  | disarm =>
    obtain ⟨-, rfl⟩ := by simpa [RecordingControl.step] using goes
    exact alive.disarmTrigger
  | stop =>
    obtain rfl := by simpa [RecordingControl.step] using goes
    exact alive.stopRecording
  | requestEnd =>
    obtain ⟨-, rfl⟩ := by simpa [RecordingControl.step] using goes
    exact alive.requestEnd
  | wake timedOut =>
    obtain ⟨-, rfl⟩ := by simpa [RecordingControl.step] using goes
    exact alive
  | closeStop canWaitArmed =>
    obtain ⟨-, rfl⟩ := by simpa [RecordingControl.step] using goes
    exact alive.closeStop canWaitArmed (orderly rfl)
  | chunk armed above refused =>
    obtain ⟨free, rfl⟩ := by simpa [RecordingControl.step] using goes
    exact alive.checkTrigger armed above refused free
  | autoStop =>
    obtain ⟨-, rfl⟩ := by simpa [RecordingControl.step] using goes
    exact alive.autoStop
  | schedule recording wait =>
    obtain ⟨handed, rfl⟩ := by simpa [RecordingControl.step] using goes
    exact alive.scheduleRecctl handed
  | takeJob =>
    simp only [RecordingControl.step] at goes
    split at goes
    · rename_i free queued
      obtain rfl := Option.some.inj goes
      exact alive.takeJob free queued
    · cases goes
  | finalize =>
    simp only [RecordingControl.step] at goes
    split at goes
    · rename_i body
      obtain rfl := Option.some.inj goes
      exact alive.finalize body
    · cases goes
  | writeIdle =>
    simp only [RecordingControl.step] at goes
    split at goes
    · rename_i closing
      obtain rfl := Option.some.inj goes
      exact alive.writeIdle closing
    · cases goes
  | setDone =>
    obtain ⟨signalling, rfl⟩ := by simpa [RecordingControl.step] using goes
    exact alive.setDone signalling

theorem Free.no_jobs {job : JobPhase} (free : Free job) : job.running = [] := by
  rcases free with rfl | rfl <;> rfl

theorem Free.not_closing {job : JobPhase} (free : Free job) (recording : Nat) : job ≠ .closing recording := by
  rcases free with rfl | rfl <;> simp

/-- The recordings up to `n` are finalized, number `n + 1` is the current one. -/
theorem finalized_once {n i : Nat} (first : 1 ≤ i) (last : i ≤ n + 1) :
    (List.range' 1 n).count i = 1 ∨ i = n + 1 ∧ (List.range' 1 n).count i = 0 := by
  by_cases current : i = n + 1
  · refine Or.inr ⟨current, List.count_eq_zero.mpr fun member => ?_⟩
    have := (List.mem_range'_1.mp member).2
    omega
  · exact Or.inl (List.count_eq_one_of_mem List.nodup_range' (List.mem_range'_1.mpr (by omega)))

theorem Alive.oneAtATime (alive : c.Alive) : c.Serial := by
  obtain ⟨state, _, begun, beginning, _, handover, queue, job, finalized, _, _, _⟩ := c
  simp only [Alive] at alive
  cases alive with
  | resting rest job =>
    refine ⟨nofun, fun k closing => absurd closing (job.not_closing k), fun i first last => Or.inl ?_⟩
    exact List.count_eq_one_of_mem List.nodup_range' (List.mem_range'_1.mpr (by simp only at last; omega))
  | beginning rest job =>
    refine ⟨fun _ => job.no_jobs, fun k closing => absurd closing (job.not_closing k), fun i first last => ?_⟩
    exact (finalized_once first last).imp_right fun current => ⟨current.1, current.2, Or.inl rfl⟩
  | recording job =>
    refine ⟨nofun, fun k closing => absurd closing (job.not_closing k), fun i first last => ?_⟩
    exact (finalized_once first last).imp_right fun current => ⟨current.1, current.2, Or.inr (Or.inl rfl)⟩
  | handed job | queued job =>
    refine ⟨nofun, fun k closing => absurd closing (job.not_closing k), fun i first last => ?_⟩
    refine (finalized_once first last).imp_right fun current => ⟨current.1, current.2, Or.inr (Or.inr ?_)⟩
    rw [openJobs, job.no_jobs, current.1]
    rfl
  | body =>
    refine ⟨nofun, nofun, fun i first last => ?_⟩
    refine (finalized_once first last).imp_right fun current => ⟨current.1, current.2, Or.inr (Or.inr ?_)⟩
    rw [openJobs, current.1]
    rfl
  | closing =>
    refine ⟨nofun, fun k closing => ⟨(JobPhase.closing.inj closing).symm, rfl, rfl⟩, fun i first last => Or.inl ?_⟩
    exact List.count_eq_one_of_mem List.nodup_range' (List.mem_range'_1.mpr (by simp only at last; omega))

/-- In every run whose stop calls close after the job, the finalize jobs and
the recordings take turns. -/
theorem Reach.serial (reach : Reach StopsAfterJob c) : c.Serial := by
  have rested : create.Alive := .resting (Or.inl rfl) (Or.inl rfl)
  exact (reach.invariant rested fun _ _ _ alive orderly goes => alive.step orderly goes).oneAtATime

/-- The first recording is stopped and finalized, then a second one begins. -/
theorem Reach.serial_second :
    (⟨.recording, true, 2, false, true, [], [], .free, [1], 0, 0, 0⟩ : RecordingControl).Serial := by
  let acts : List Act := [.start false, .beginFlip, .stop, .requestEnd, .schedule 1 true, .takeJob, .finalize,
    .writeIdle, .setDone, .wake false, .closeStop false, .start false, .beginFlip]
  have meets : Runs.Meets step StopsAfterJob create acts := by decide
  exact Reach.serial (Runs.Reach.start.follow meets rfl)

/-- A stop call gives up waiting for a slow job and writes "idle". The next
start begins while the job still reads the first recording's fields. -/
theorem serial_fails : ¬ ∀ c, Reach (fun _ _ => True) c → c.Serial := by
  intro serial
  let acts : List Act := [.start false, .beginFlip, .stop, .requestEnd, .schedule 1 true, .takeJob, .wake true,
    .closeStop false, .start false]
  have goes : Runs.follow step create acts = some ⟨.idle, true, 2, true, false, [], [], .body 1, [], 0, 0, 0⟩ := rfl
  exact absurd ((serial _ (.of_follow goes)).apart rfl) (by decide)

end RecordingControl
end RFObserver
