import RFObserver.Schedules.CutterLead

namespace RFObserver
open LossyStream

variable {α : Type*} {P : α → Prop}

/-- Every received sample the operations write satisfies `P`. -/
def Only (P : α → Prop) (ops : List (Op α)) : Prop := ∀ x, some x ∈ timeSamples ops → P x

theorem mem_splice {x : α} {pos : Nat} {gaps : Gaps} {xs : List α} (member : some x ∈ splice pos gaps xs) : x ∈ xs := by
  induction gaps generalizing pos with
  | nil =>
    obtain ⟨y, inside, same⟩ := List.mem_map.mp member
    exact Option.some.inj same ▸ List.mem_of_mem_drop inside
  | cons g gaps ih =>
    rcases List.mem_append.mp member with before | after
    · rcases List.mem_append.mp before with received | lost
      · obtain ⟨y, inside, same⟩ := List.mem_map.mp received
        exact Option.some.inj same ▸ List.mem_of_mem_take (List.mem_of_mem_drop inside)
      · cases List.eq_of_mem_replicate lost
    · exact ih after

namespace RunCutter

/-- A chunk all of whose samples are right, after `lead`, or one that `lead`
leaves no room for. -/
theorem only_lead {lead : List (Option α)} {pos room : Nat} {gaps : Gaps} {samples : List α}
    (ahead : ∀ x, some x ∈ lead.take room → P x) (own : (∀ x ∈ samples, P x) ∨ room ≤ lead.length) :
    ∀ x, some x ∈ (lead ++ splice pos gaps samples).take room → P x := by
  intro x member
  rw [List.take_append] at member
  rcases List.mem_append.mp member with before | after
  · exact ahead x before
  · rcases own with right | full
    · exact right x (mem_splice (List.mem_of_mem_take after))
    · rw [Nat.sub_eq_zero_of_le full, List.take_zero] at after
      cases after

/-- A call hands on right samples only, when the chunk's are right and so is
what a run placed on it starts with. -/
theorem feed_only {c : RunCutter} {k : ChunkCall α}
    (own : k.centerFreqHz = c.spec.centerFreqHz → ∀ x ∈ k.samples, P x)
    (ahead : c.started = false → c.done = false → ∀ lead ∈ k.lead c,
      (∀ x, some x ∈ lead.take c.room → P x) ∧ (k.centerFreqHz = c.spec.centerFreqHz ∨ c.room ≤ lead.length)) :
    Only P (c.feed k.samples k.chunkStart k.captureTime k.gaps k.centerFreqHz k.ring).2 := by
  have nothing : Only P ([] : List (Op α)) := fun x member => by cases member
  unfold feed
  split_ifs with done started retuned
  · exact nothing
  · exact nothing
  · obtain ⟨zeros, gaps, takes⟩ := continueRun_takes started k
    intro x member
    rw [takes.ops] at member
    refine only_lead (fun y inside => ?_) (Or.inl (own (not_not.mp retuned))) x member
    cases List.eq_of_mem_replicate (List.mem_of_mem_take inside)
  · cases leadEq : k.lead c with
    | none => rw [begin_nothing leadEq]; exact nothing
    | some lead =>
      obtain ⟨pos, gaps, takes⟩ := begin_takes leadEq
      obtain ⟨before, same⟩ := ahead (by simpa using started) (by simpa using done) lead leadEq
      intro x member
      rw [takes.ops] at member
      exact only_lead before (same.imp_left own) x member

end RunCutter

namespace ScheduleEngine

/-- Every file holds samples received on its run's own frequency only. -/
def OwnFiles (tuned : α → ℚ) (e : ScheduleEngine α) : Prop :=
  ∀ file ∈ e.written, Only (fun x => tuned x = file.1.centerFreqHz) file.2

/-- What the chunk does with a run that it may place: the samples read back
for it were received on the run's frequency, and so was the chunk, unless
what comes before already fills the run. -/
def PlacedOnOwn (tuned : α → ℚ) (call : ChunkCall α) (act : Active) : Prop :=
  act.closing = false → act.cutter.started = false → act.cutter.done = false → ∀ lead ∈ call.lead act.cutter,
    (∀ y ∈ lead.take act.cutter.room, ∀ x ∈ y, tuned x = act.cutter.spec.centerFreqHz) ∧
    (call.centerFreqHz = act.cutter.spec.centerFreqHz ∨ act.cutter.room ≤ lead.length)

instance (tuned : α → ℚ) (call : ChunkCall α) (act : Active) : Decidable (PlacedOnOwn tuned call act) := by
  unfold PlacedOnOwn; infer_instance

/-- A chunk's samples were received on its frequency. -/
def Act.Received (tuned : α → ℚ) : Act α → Prop
  | .chunk call => ∀ x ∈ call.samples, tuned x = call.centerFreqHz
  | _ => True

instance (tuned : α → ℚ) : ∀ a : Act α, Decidable (a.Received tuned)
  | .chunk call => inferInstanceAs (Decidable (∀ x ∈ call.samples, tuned x = call.centerFreqHz))
  | .add _ | .delete _ | .stop _ => isTrue trivial

/-- No run is placed on samples of another frequency. -/
def Act.OnOwn (tuned : α → ℚ) (e : ScheduleEngine α) : Act α → Prop
  | .chunk call => ∀ act ∈ (e.planChunk call).active, PlacedOnOwn tuned call act
  | _ => True

instance (tuned : α → ℚ) (e : ScheduleEngine α) : ∀ a : Act α, Decidable (a.OnOwn tuned e)
  | .chunk call => inferInstanceAs (Decidable (∀ act ∈ (e.planChunk call).active, PlacedOnOwn tuned call act))
  | .add _ | .delete _ | .stop _ => isTrue trivial

theorem feedOne_only {tuned : α → ℚ} {call : ChunkCall α} {act : Active}
    (received : ∀ x ∈ call.samples, tuned x = call.centerFreqHz) (placed : PlacedOnOwn tuned call act) :
    Only (fun x => tuned x = act.cutter.spec.centerFreqHz) (feedOne call act).2 := by
  unfold feedOne
  split
  · exact fun x member => by cases member
  · rename_i running
    refine RunCutter.feed_only (fun same x member => same ▸ received x member) fun started done lead leadEq => ?_
    obtain ⟨before, same⟩ := placed (by simpa using running) started done lead leadEq
    exact ⟨fun x member => before (some x) member x rfl, same⟩

theorem OwnFiles.putOps {tuned : α → ℚ} {e : ScheduleEngine α} {spec : RunSpec} {ops : List (Op α)}
    (own : e.OwnFiles tuned) (only : Only (fun x => tuned x = spec.centerFreqHz) ops) :
    (e.putOps spec ops).OwnFiles tuned := by
  unfold ScheduleEngine.putOps
  split
  · exact own
  · intro file member
    rcases List.mem_append.mp member with before | new
    · exact own file before
    · obtain rfl := List.mem_singleton.mp new
      exact only

theorem feedActive_ownFiles {tuned : α → ℚ} {call : ChunkCall α} {acts : List Active} {e : ScheduleEngine α}
    (received : ∀ x ∈ call.samples, tuned x = call.centerFreqHz) (placed : ∀ act ∈ acts, PlacedOnOwn tuned call act)
    (own : e.OwnFiles tuned) : (feedActive call acts e).OwnFiles tuned := by
  induction acts generalizing e with
  | nil => exact own
  | cons act rest ih =>
    have fed := feedOne_only received (placed act (List.mem_cons_self ..))
    have later := fun act' member => placed act' (List.mem_cons_of_mem _ member)
    unfold feedActive
    have grown := own.putOps fed
    simp only
    split_ifs
    · exact ih later grown
    · exact ih later grown

theorem written_reportRun (r : RunReport) (e : ScheduleEngine α) : (e.reportRun r).written = e.written := rfl

theorem written_markSchedule (until_ : ℤ) (e : ScheduleEngine α) (s : Schedule) :
    (e.markSchedule until_ s).written = e.written := by
  unfold markSchedule
  induction e.missedRuns s until_ generalizing e with
  | nil => rfl
  | cons k ks ih => exact ih _

theorem written_markMissed (nowMs : ℤ) (e : ScheduleEngine α) : (e.markMissed nowMs).written = e.written := by
  have marked : ∀ (until_ : ℤ) (live : List Schedule) (e : ScheduleEngine α),
      (live.foldl (markSchedule until_) e).written = e.written := by
    intro until_ live
    induction live with
    | nil => exact fun e => rfl
    | cons s live ih => exact fun e => (ih _).trans (written_markSchedule until_ e s)
  exact marked ..

theorem written_refresh (nowMs : ℤ) (e : ScheduleEngine α) : (e.refresh nowMs).written = e.written := by
  unfold refresh; split <;> rfl

theorem written_startRun (s : Schedule) (k : Nat) (call : ChunkCall α) (e : ScheduleEngine α) :
    (e.startRun s k call).written = e.written := by
  unfold startRun
  split_ifs
  · rfl
  · rfl
  · cases call.refusal <;> rfl

theorem written_dueLoop (s : Schedule) (call : ChunkCall α) (fuel : Nat) (k : Option Nat) (e : ScheduleEngine α) :
    (dueLoop s call fuel k e).2.written = e.written := by
  induction fuel generalizing k e with
  | zero => rfl
  | succ fuel ih =>
    cases k with
    | none => rfl
    | some k =>
      unfold dueLoop
      split
      · exact (ih _ _).trans (written_startRun s k call e)
      · rfl

theorem written_dueEntries (call : ChunkCall α) (entries : List (Schedule × Option Nat)) (e : ScheduleEngine α) :
    (dueEntries call entries e).2.written = e.written := by
  induction entries generalizing e with
  | nil => rfl
  | cons entry entries ih => exact (ih _).trans (written_dueLoop ..)

/-- Taking the due runs writes nothing. -/
theorem written_planChunk (call : ChunkCall α) (e : ScheduleEngine α) : (e.planChunk call).written = e.written := by
  unfold planChunk startDue
  simp only [written_dueEntries, written_refresh]
  split
  · rfl
  · exact written_markMissed ..

theorem step_ownFiles {tuned : α → ℚ} {e e' : ScheduleEngine α} {a : Act α} (own : e.OwnFiles tuned)
    (received : a.Received tuned) (placed : a.OnOwn tuned e) (taken : e.step a = some e') : e'.OwnFiles tuned := by
  cases a with
  | add s =>
    obtain rfl := Option.some.inj taken
    unfold addSchedule
    split <;> exact own
  | delete id =>
    obtain rfl := Option.some.inj taken
    unfold deleteSchedule
    split <;> exact own
  | chunk call =>
    obtain rfl := Option.some.inj taken
    refine feedActive_ownFiles received placed fun file member => own file ?_
    exact written_planChunk call e ▸ member
  | stop reason =>
    obtain rfl := Option.some.inj taken
    exact own

/-- At a chunk of another frequency a run in progress ends and takes nothing. -/
def EndsRetuned (e : ScheduleEngine α) : Prop :=
  ∀ act ∈ e.active, act.closing = false → act.cutter.started = true → ∀ call : ChunkCall α,
    call.centerFreqHz ≠ act.cutter.spec.centerFreqHz →
    feedOne call act = (⟨act.cutter.endRun "retuned", true, act.refused⟩, [])

theorem endsRetuned (e : ScheduleEngine α) : e.EndsRetuned := by
  intro act _ running started call retuned
  unfold feedOne RunCutter.feed
  by_cases done : act.cutter.done = true
  · simp [running, done, RunCutter.endRun]
  · simp [running, done, started, retuned, RunCutter.endRun]

/-- When every run is placed on samples of its own frequency, every sample in
a run's file was received on that frequency, and a run ends when the receiver
leaves it. -/
theorem Reach.own_tuning {tuned : α → ℚ} {graceMs : ℤ} {live : List Schedule} {known : List String}
    {last : String → Option Nat} {e : ScheduleEngine α}
    (reach : Reach (create graceMs live known last) (fun e a => a.Received tuned ∧ a.OnOwn tuned e) e) :
    e.OwnFiles tuned ∧ e.EndsRetuned :=
  ⟨reach.invariant (fun file member => by cases member)
    fun _ _ _ own meets taken => step_ownFiles own meets.1 meets.2 taken, e.endsRetuned⟩

section Retune

def fourMs : Schedule := ⟨"s", 2, 4, none, none, none, "", 0, nofun⟩

/-- Four samples received on `freq`, each carrying its frequency. -/
def fourSamples (freq : ℚ) (chunkStart : Nat) (captureTime : ℚ) (ring : CircularBuffer ℚ) : ChunkCall ℚ where
  samples := List.replicate 4 freq
  chunkStart := chunkStart
  captureTime := captureTime
  gaps := []
  centerFreqHz := freq
  rateHz := 1000
  ring := some (ring.write (List.replicate 4 freq))
  refusal := none
  refuses := fun _ => 0
  rowsIn := fun _ => true

def eightRing : CircularBuffer ℚ := .create 8 (by decide)

/-- A schedule that starts 2 ms back is added between a chunk received on 1 Hz
and one received on `freq`. -/
def joinedLate (freq : ℚ) : List (Act ℚ) :=
  [.chunk (fourSamples 1 0 0 eightRing), .add fourMs,
    .chunk (fourSamples freq 4 (4 / 1000) (eightRing.write (List.replicate 4 1)))]

def filesOf (e : ScheduleEngine α) : List (ℚ × List (Option α)) :=
  e.written.map fun file => (file.1.centerFreqHz, timeSamples file.2)

/-- The receiver stays on its frequency. -/
theorem Reach.own_tuning_stays : ∃ e : ScheduleEngine ℚ,
    filesOf e = [(1, List.replicate 4 (some 1))] ∧ e.OwnFiles id ∧ e.EndsRetuned := by
  have files : (Runs.follow step (create 1000 [] [] fun _ => none) (joinedLate 1)).map filesOf =
      some [(1, List.replicate 4 (some 1))] := by decide +kernel
  have meets : Runs.Meets step (fun e a => a.Received id ∧ a.OnOwn id e) (create 1000 [] [] fun _ => none)
      (joinedLate 1) := by decide +kernel
  obtain ⟨e, goes, file⟩ := Option.map_eq_some_iff.mp files
  exact ⟨e, file, Reach.own_tuning (Runs.Reach.start.follow meets goes)⟩

/-- The receiver leaves its frequency, and the run takes from the ring what it
received before. -/
theorem own_tuning_fails : ¬ ∀ e : ScheduleEngine ℚ,
    Reach (create 1000 [] [] fun _ => none) (fun _ a => a.Received id) e → e.OwnFiles id ∧ e.EndsRetuned := by
  intro own
  have files : (Runs.follow step (create 1000 [] [] fun _ => none) (joinedLate 2)).map filesOf =
      some [(2, [some 1, some 1, some 2, some 2])] := by decide +kernel
  have meets : Runs.Meets step (fun _ a => a.Received id) (create 1000 [] [] fun _ => none)
      (joinedLate 2) := by decide +kernel
  obtain ⟨e, goes, file⟩ := Option.map_eq_some_iff.mp files
  obtain ⟨written, member, same⟩ := List.map_eq_singleton_iff.mp file
  obtain ⟨center, samples⟩ := Prod.mk.inj same
  have wrong := (own e (Runs.Reach.start.follow meets goes)).1 written (by rw [member]; exact List.mem_singleton_self _)
    1 (by rw [samples]; decide)
  rw [center] at wrong
  norm_num at wrong

end Retune

end ScheduleEngine
end RFObserver
