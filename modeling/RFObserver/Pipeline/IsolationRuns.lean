import RFObserver.Pipeline.Isolation

namespace RFObserver

namespace IsolationStats

variable {stats : IsolationStats} {name other : IsolationCounter} {n : Nat}

@[simp]
theorem count_self : stats.count name n name = stats name + n := if_pos rfl

@[simp]
theorem count_of_ne (different : other ≠ name) : stats.count name n other = stats other := if_neg different

theorem countAll_eq (names : List IsolationCounter) : stats.countAll names name = stats name + names.count name := by
  induction names generalizing stats with
  | nil => rfl
  | cons first names ih =>
    have tail : stats.countAll (first :: names) name = (stats.count first 1).countAll names name := rfl
    rw [tail, ih]
    by_cases same : name = first
    · rw [same, count_self, List.count_cons_self]
      omega
    · rw [count_of_ne same, List.count_cons_of_ne (Ne.symm same)]

end IsolationStats

namespace IsolationWork

variable {batch : IsolationBatch} {work : IsolationWork} {settings : IsolationSettings} {outcome : IsolationOutcome}
  {state : BurstState} {names : List IsolationCounter}

/-- The expired bursts of a ring, by their reasons. -/
def reasons (names : List IsolationCounter) : Nat :=
  names.count (.expired .overwritten) + names.count (.expired .unwritten) + names.count (.expired .nopos)

/-- Counters that have no part in the accounts of the bursts. -/
def aside : IsolationCounter → Bool
  | .expired _ | .archiveError | .moduleError | .handoffError => true
  | _ => false

def Beside (names : List IsolationCounter) : Prop := ∀ name ∈ names, aside name

theorem Beside.count_eq (beside : Beside names) {stats : IsolationStats} {name : IsolationCounter}
    (part : aside name = false) : stats.countAll names name = stats name := by
  have absent : name ∉ names := fun member => nomatch part.symm.trans (beside name member)
  rw [IsolationStats.countAll_eq, List.count_eq_zero_of_not_mem absent]
  rfl

theorem expired_ring {bounds asked : Option (ℤ × ℤ)} {reason : Option ExpiryReason}
    (expires : work.expired batch bounds asked = some reason) : reason.isSome = batch.onRing := by
  unfold expired at expires
  cases source : batch.source with
  | wholeCapture =>
    simp only [source, Option.some.injEq] at expires
    simp [← expires, IsolationBatch.onRing, IsolationBatch.whole, source]
  | ring itemsize =>
    have onRing : batch.onRing = true := by simp [IsolationBatch.onRing, IsolationBatch.whole, source]
    rw [onRing]
    simp only [source] at expires
    split at expires
    case h_1 same => cases same
    case h_2 => rw [← Option.some.inj expires]; rfl
    case h_3 rng _ _ =>
      split at expires
      case h_1 => cases expires
      case h_2 =>
        split_ifs at expires <;> (rw [← Option.some.inj expires]; rfl)

theorem fanOut_beside : Beside (fanOut settings outcome) ∧ reasons (fanOut settings outcome) = 0 := by
  unfold fanOut
  split_ifs <;> exact ⟨by simp [Beside, aside], by decide⟩

/-- A burst has a reason exactly if it expired on a ring. -/
def Explains (batch : IsolationBatch) (result : BurstState × List IsolationCounter) : Prop :=
  Beside result.2 ∧ reasons result.2 = if batch.onRing ∧ result.1 = .iqExpired then 1 else 0

theorem explains_error : Explains batch (.error, []) := ⟨by simp [Beside, aside], by simp [reasons]⟩

theorem gone_explains (bounds asked : Option (ℤ × ℤ)) : Explains batch (work.gone batch bounds asked) := by
  unfold gone
  cases why : work.expired batch bounds asked with
  | none => exact explains_error
  | some reason =>
    have onRing := expired_ring why
    rw [Explains, ← onRing]
    cases reason with
    | none => exact ⟨by simp [Beside, aside], by simp [reasons]⟩
    | some reason => cases reason <;> exact ⟨by simp [Beside, aside], by decide⟩

theorem isolate_explains : Explains batch (work.isolate settings outcome) := by
  obtain ⟨beside, none⟩ := @fanOut_beside settings outcome
  unfold isolate
  split_ifs
  · exact ⟨beside, by simp [none]⟩
  · exact ⟨beside, by simp [none]⟩
  · exact explains_error

theorem one_explains : Explains batch (work.one batch settings outcome) := by
  unfold one
  by_cases failed : work.readFailed = true
  · rw [if_pos failed]
    exact explains_error
  · rw [if_neg failed]
    split
    · exact explains_error
    · exact gone_explains ..
    · split_ifs
      · exact gone_explains ..
      · exact isolate_explains

end IsolationWork

/-- What has been taken off the queue: tasks not done, batches not released and
candidates not counted. -/
structure Held where
  tasks : Nat
  batches : List IsolationBatch
  cands : Nat
  deriving DecidableEq

namespace Held

def none : Held := ⟨0, [], 0⟩

def add (a b : Held) : Held := ⟨a.tasks + b.tasks, a.batches ++ b.batches, a.cands + b.cands⟩

end Held

def QueueItem.batch? : QueueItem → Option IsolationBatch
  | .stop => none
  | .batch taken => some taken

def IsolationBatch.size (batch : IsolationBatch) : Nat := batch.candidates.length

def DrainPhase.held : DrainPhase → Held
  | .taking => .none
  | .holding .stop => ⟨1, [], 0⟩
  | .holding (.batch batch) => ⟨1, [batch], batch.size⟩
  | .releasing batch => ⟨0, [batch], batch.size⟩
  | .counting batch => ⟨0, [], batch.size⟩

def WorkerPhase.held : WorkerPhase → Held
  | .looping | .waiting | .exiting | .ended => .none
  | .stopping | .finishing => ⟨1, [], 0⟩
  | .gating batch => ⟨1, [batch], batch.size⟩
  | .snapshotting batch _ _ _ _ | .isolating batch _ | .releasing batch => ⟨1, [batch], 0⟩
  | .draining drain => drain.held

def StopPhase.held : StopPhase → Held
  | .draining drain | .drainingLast drain => drain.held
  | .idle | .setting | .putting | .joining => .none

/-- The picked bursts that have no state yet. -/
def WorkerPhase.unfated : WorkerPhase → List BurstCandidate
  | .snapshotting _ rest _ lazy snapped => rest ++ (lazy ++ snapped).map (·.cand)
  | .isolating _ works => works.map (·.cand)
  | _ => []

namespace IsolationStage

variable {s s' : IsolationStage} {held other : Held} {unfated : List BurstCandidate} {batch : IsolationBatch} {n m : Nat}

/-- The batch that is in the queue, but not in the count of whole captures. -/
def placed (submitting : Option IsolationBatch) : ℤ := submitting.elim 0 fun batch => if batch.whole then 1 else 0

def batches (queue : List QueueItem) : List IsolationBatch := queue.filterMap (·.batch?)

def sizes (queue : List QueueItem) : Nat := ((batches queue).map (·.size)).sum

/-- Everything submitted is accounted for by the counters, the queue and what
has been taken off it. -/
structure Balance (queue : List QueueItem) (unfinished : ℤ) (submitting : Option IsolationBatch) (pending : ℤ)
    (stats : IsolationStats) (picks : List BurstCandidate) (fates : List BurstFate) (held : Held)
    (unfated : List BurstCandidate) : Prop where
  tasks : unfinished = queue.length + held.tasks
  wholes : pending + placed submitting = (batches queue ++ held.batches).countP (·.whole)
  room : pending + placed submitting ≤ maxWholeCaptureBatches
  cands : stats .received = stats .gatedOut + stats .picked + stats .queueFull + sizes queue + held.cands
  perm : picks.Perm (fates.map (·.cand) ++ unfated)
  picked : stats .picked = picks.length
  states : ∀ state, stats (.state state) = fates.countP (·.state = state)
  reasons : stats (.expired .overwritten) + stats (.expired .unwritten) + stats (.expired .nopos) =
    fates.countP fun fate => fate.ring && fate.state = .iqExpired

def Accounts (s : IsolationStage) : Held → List BurstCandidate → Prop :=
  Balance s.queue s.unfinishedTasks s.submitting s.wholePending s.stats s.picks s.fates

def worker (s : IsolationStage) : WorkerPhase := s.thread.getD .ended

def Kept (s : IsolationStage) : Prop := s.Accounts (s.worker.held.add s.control.held) s.worker.unfated

theorem create_kept (settings : IsolationSettings) : (create settings).Kept :=
  ⟨rfl, rfl, show (0 : ℤ) ≤ 2 by decide, rfl, .nil, rfl, fun _ => rfl, rfl⟩

theorem Accounts.count_full (accounts : s.Accounts (Held.add ⟨0, [], n⟩ other) unfated) :
    (s.count .queueFull n).Accounts other unfated := by
  obtain ⟨tasks, wholes, room, cands, perm, picked, states, reasons⟩ := accounts
  simp only [Held.add, Nat.zero_add, List.nil_append] at tasks wholes cands
  refine ⟨tasks, wholes, room, ?_, perm, ?_, ?_, ?_⟩ <;> simp [count]
  · omega
  · exact picked
  · exact states
  · exact reasons

theorem Accounts.task_done {taken : List IsolationBatch}
    (accounts : s.Accounts (Held.add ⟨1, taken, n⟩ other) unfated) :
    s.taskDone.Accounts (Held.add ⟨0, taken, n⟩ other) unfated := by
  obtain ⟨tasks, wholes, room, cands, perm, picked, states, reasons⟩ := accounts
  refine ⟨?_, wholes, room, cands, perm, picked, states, reasons⟩
  simp only [Held.add, taskDone] at tasks ⊢
  omega

theorem Accounts.release (accounts : s.Accounts (Held.add ⟨n, [batch], m⟩ other) unfated)
    (goes : s.release batch = some s') : s'.Accounts (Held.add ⟨n, [], m⟩ other) unfated := by
  obtain ⟨tasks, wholes, room, cands, perm, picked, states, reasons⟩ := accounts
  have split : (batches s.queue ++ batch :: other.batches).countP (·.whole) =
      (batches s.queue ++ other.batches).countP (·.whole) + if batch.whole then 1 else 0 := by
    rw [List.countP_append, List.countP_cons, List.countP_append, Nat.add_assoc]
  simp only [Held.add, List.cons_append, List.nil_append, split] at wholes
  unfold IsolationStage.release at goes
  by_cases whole : batch.whole = true
  · rw [if_pos whole] at goes wholes
    obtain ⟨free, goes⟩ := Option.ite_none_right_eq_some.mp goes
    obtain rfl := Option.some.inj goes
    refine ⟨tasks, ?_, ?_, cands, perm, picked, states, reasons⟩
    · simp only [Held.add, List.nil_append]
      omega
    · simp only
      omega
  · rw [if_neg whole] at goes wholes
    obtain rfl := Option.some.inj goes
    exact ⟨tasks, wholes, room, cands, perm, picked, states, reasons⟩

theorem sizes_cons (item : QueueItem) (rest : List QueueItem) :
    sizes (item :: rest) = (item.batch?.elim 0 IsolationBatch.size) + sizes rest := by
  cases item with
  | stop => exact (Nat.zero_add _).symm
  | batch taken => rfl

theorem held_holding (item : QueueItem) :
    (DrainPhase.holding item).held = ⟨1, item.batch?.toList, item.batch?.elim 0 IsolationBatch.size⟩ := by
  cases item <;> rfl

/-- The head of the queue is taken. -/
theorem Accounts.take {item : QueueItem} {rest : List QueueItem} (accounts : s.Accounts other unfated)
    (queue : s.queue = item :: rest) :
    Accounts { s with queue := rest } ((DrainPhase.holding item).held.add other) unfated := by
  obtain ⟨tasks, wholes, room, cands, perm, picked, states, reasons⟩ := accounts
  rw [queue] at tasks wholes cands
  rw [held_holding]
  refine ⟨?_, ?_, room, ?_, perm, picked, states, reasons⟩
  · simp only [Held.add, List.length_cons] at tasks ⊢
    omega
  · have first : batches (item :: rest) = item.batch?.toList ++ batches rest := by
      cases item <;> rfl
    simp only [Held.add]
    rw [wholes, first, ← List.append_assoc, List.countP_append, List.countP_append, List.countP_append,
      List.countP_append, Nat.add_comm (List.countP _ item.batch?.toList)]
  · rw [sizes_cons] at cands
    simp only [Held.add]
    omega

theorem Accounts.drain {drain : DrainPhase} {next : Option DrainPhase}
    (accounts : s.Accounts (drain.held.add other) unfated) (goes : s.drain drain = some (s', next)) :
    s'.Accounts ((next.elim .none DrainPhase.held).add other) unfated := by
  have same : ∀ held, Held.none.add held = held := fun held => by
    simp only [Held.add, Held.none, Nat.zero_add, List.nil_append]
  cases drain with
  | taking =>
    rw [DrainPhase.held, same] at accounts
    simp only [IsolationStage.drain] at goes
    cases queue : s.queue with
    | nil =>
      simp only [queue, Option.some.injEq, Prod.mk.injEq] at goes
      obtain ⟨rfl, rfl⟩ := goes
      exact (same other).symm ▸ accounts
    | cons item rest =>
      simp only [queue, Option.some.injEq, Prod.mk.injEq] at goes
      obtain ⟨rfl, rfl⟩ := goes
      exact accounts.take queue
  | holding item =>
    cases item with
    | stop =>
      obtain ⟨rfl, rfl⟩ := Prod.mk.inj (Option.some.inj goes)
      exact accounts.task_done
    | batch taken =>
      obtain ⟨rfl, rfl⟩ := Prod.mk.inj (Option.some.inj goes)
      exact accounts.task_done
  | releasing taken =>
    obtain ⟨after, released, same⟩ := Option.map_eq_some_iff.mp goes
    obtain ⟨rfl, rfl⟩ := Prod.mk.inj same
    exact accounts.release released
  | counting taken =>
    obtain ⟨rfl, rfl⟩ := Prod.mk.inj (Option.some.inj goes)
    exact (same other).symm ▸ accounts.count_full

/-- The fields that a drain and a release leave alone. -/
def Frame (s s' : IsolationStage) : Prop :=
  s'.thread = s.thread ∧ s'.control = s.control ∧ s'.stopEvent = s.stopEvent

theorem release_frame (goes : s.release batch = some s') : s.Frame s' := by
  unfold IsolationStage.release at goes
  split_ifs at goes <;> (obtain rfl := Option.some.inj goes; exact ⟨rfl, rfl, rfl⟩)

theorem drain_frame {drain : DrainPhase} {next : Option DrainPhase} (goes : s.drain drain = some (s', next)) :
    s.Frame s' ∧ (next = none → s'.queue = []) := by
  cases drain with
  | taking =>
    simp only [IsolationStage.drain] at goes
    split at goes
    case h_1 empty =>
      obtain ⟨rfl, rfl⟩ := Prod.mk.inj (Option.some.inj goes)
      exact ⟨⟨rfl, rfl, rfl⟩, fun _ => empty⟩
    case h_2 =>
      obtain ⟨rfl, rfl⟩ := Prod.mk.inj (Option.some.inj goes)
      exact ⟨⟨rfl, rfl, rfl⟩, nofun⟩
  | holding item =>
    cases item <;> (obtain ⟨rfl, rfl⟩ := Prod.mk.inj (Option.some.inj goes); exact ⟨⟨rfl, rfl, rfl⟩, nofun⟩)
  | releasing taken =>
    obtain ⟨after, released, same⟩ := Option.map_eq_some_iff.mp goes
    obtain ⟨rfl, rfl⟩ := Prod.mk.inj same
    exact ⟨release_frame released, nofun⟩
  | counting taken =>
    obtain ⟨rfl, rfl⟩ := Prod.mk.inj (Option.some.inj goes)
    exact ⟨⟨rfl, rfl, rfl⟩, nofun⟩

theorem batches_concat (queue : List QueueItem) (item : QueueItem) :
    batches (queue ++ [item]) = batches queue ++ item.batch?.toList := by
  rw [batches, List.filterMap_append]
  cases item <;> rfl

/-- The sentinel is put in the queue. -/
theorem Accounts.put_stop (accounts : s.Accounts other unfated) (goes : s.putNowait .stop = some s') :
    s'.Accounts other unfated := by
  obtain ⟨_, goes⟩ := Option.ite_none_right_eq_some.mp goes
  obtain rfl := Option.some.inj goes
  obtain ⟨tasks, wholes, room, cands, perm, picked, states, reasons⟩ := accounts
  have same : batches (s.queue ++ [.stop]) = batches s.queue := by
    rw [batches_concat]
    exact List.append_nil _
  refine ⟨?_, ?_, room, ?_, perm, picked, states, reasons⟩
  · simp only [List.length_append, List.length_singleton]
    omega
  · simp only
    rw [same]
    exact wholes
  · simp only
    rw [sizes, same]
    exact cands

/-- The candidates of a batch are received, and held by the `submit`. -/
theorem Accounts.receive (accounts : s.Accounts other unfated) (n : Nat) :
    (s.count .received n).Accounts (Held.add ⟨0, [], n⟩ other) unfated := by
  obtain ⟨tasks, wholes, room, cands, perm, picked, states, reasons⟩ := accounts
  refine ⟨?_, wholes, room, ?_, perm, ?_, ?_, ?_⟩ <;> simp [count, Held.add]
  · exact tasks
  · omega
  · exact picked
  · exact states
  · exact reasons

theorem Accounts.submit (accounts : s.Accounts other unfated) (free : s.submitting = none) :
    (s.submit batch).Accounts other unfated := by
  have received := accounts.receive batch.candidates.length
  unfold IsolationStage.submit
  dsimp only
  by_cases stopped : (s.count .received batch.candidates.length).stopEvent = true
  · rw [if_pos stopped]
    exact received.count_full
  rw [if_neg stopped]
  split
  · exact received.count_full
  · rename_i below
    cases put : (s.count .received batch.candidates.length).putNowait (.batch batch) with
    | none => exact received.count_full
    | some after =>
      obtain ⟨_, goes⟩ := Option.ite_none_right_eq_some.mp put
      obtain rfl := Option.some.inj goes
      obtain ⟨tasks, wholes, room, cands, perm, picked, states, reasons⟩ := received
      have new : batches (s.queue ++ [.batch batch]) = batches s.queue ++ [batch] := batches_concat ..
      have pending : s.wholePending = (batches s.queue ++ other.batches).countP (·.whole) := by
        have empty : placed s.submitting = 0 := by rw [free]; rfl
        simp only [count, Held.add, List.nil_append, empty, add_zero] at wholes
        exact wholes
      refine ⟨?_, ?_, ?_, ?_, perm, picked, states, reasons⟩
      · simp only [count, Held.add] at tasks ⊢
        rw [List.length_append, List.length_singleton]
        omega
      · simp only [count, placed, Option.elim_some, new]
        rw [pending, List.countP_append, List.countP_append, List.countP_append, List.countP_singleton]
        split_ifs <;> omega
      · simp only [count, placed, Option.elim_some]
        by_cases whole : batch.whole = true
        · rw [if_pos whole]
          rw [Bool.and_eq_true, decide_eq_true_iff, not_and] at below
          have under : s.wholePending < maxWholeCaptureBatches := not_le.mp (below whole)
          omega
        · rw [if_neg whole]
          simp only [count, placed, free, Option.elim_none] at room
          omega
      · have size : sizes (s.queue ++ [.batch batch]) = sizes s.queue + batch.candidates.length := by
          rw [sizes, new, List.map_append, List.sum_append]
          rfl
        simp only [count, Held.add] at cands ⊢
        omega

theorem submit_frame (s : IsolationStage) (batch : IsolationBatch) :
    s.Frame (s.submit batch) ∧ (s.stopEvent = true → (s.submit batch).queue = s.queue) := by
  unfold IsolationStage.submit
  dsimp only
  split_ifs with stopped
  · exact ⟨⟨rfl, rfl, rfl⟩, fun _ => rfl⟩
  · exact ⟨⟨rfl, rfl, rfl⟩, fun _ => rfl⟩
  · cases put : (s.count .received batch.candidates.length).putNowait (.batch batch) with
    | none => exact ⟨⟨rfl, rfl, rfl⟩, fun _ => rfl⟩
    | some after =>
      obtain ⟨_, goes⟩ := Option.ite_none_right_eq_some.mp put
      obtain rfl := Option.some.inj goes
      exact ⟨⟨rfl, rfl, rfl⟩, fun event => absurd event stopped⟩

theorem Accounts.counted (accounts : s.Accounts other unfated) (submitting : s.submitting = some batch) :
    Accounts { s with
      submitting := none
      wholePending := if batch.whole then s.wholePending + 1 else s.wholePending } other unfated := by
  obtain ⟨tasks, wholes, room, cands, perm, picked, states, reasons⟩ := accounts
  have same : (if batch.whole then s.wholePending + 1 else s.wholePending) + placed none =
      s.wholePending + placed s.submitting := by
    rw [submitting]
    simp only [placed, Option.elim_some, Option.elim_none]
    split_ifs <;> omega
  exact ⟨tasks, same.trans wholes, same.trans_le room, cands, perm, picked, states, reasons⟩

theorem gate_length (cands : List BurstCandidate) (sampleRateHz clock : ℚ) :
    (s.gate cands sampleRateHz clock).1.length ≤ cands.length := by
  unfold gate
  dsimp only
  rw [List.length_take, List.length_insertionSort]
  exact (Nat.min_le_right _ _).trans (List.length_filter_le _ _)

/-- The gate splits a batch into picked and gated out. -/
theorem Accounts.gated (accounts : s.Accounts (Held.add ⟨1, [batch], batch.size⟩ other) []) (clock : ℚ) :
    ∃ picked, (s.gated batch clock).thread = some (.snapshotting batch picked 0 [] []) ∧
      (s.gated batch clock).control = s.control ∧
      (s.gated batch clock).Accounts (Held.add ⟨1, [batch], 0⟩ other) picked := by
  have fits := gate_length (s := s) batch.candidates batch.sampleRateHz clock
  obtain ⟨tasks, wholes, room, cands, perm, picked, states, reasons⟩ := accounts
  refine ⟨(s.gate batch.candidates batch.sampleRateHz clock).1, rfl, rfl, ?_⟩
  simp only [Held.add, IsolationBatch.size] at tasks wholes cands
  refine ⟨tasks, wholes, room, ?_, ?_, ?_, ?_, ?_⟩ <;> simp [IsolationStage.gated, count, Held.add]
  · omega
  · rw [List.append_nil] at perm
    exact perm.append_right _
  · omega
  · exact states
  · exact reasons

theorem Accounts.perm {later : List BurstCandidate} (accounts : s.Accounts held unfated)
    (perm : unfated.Perm later) : s.Accounts held later := by
  obtain ⟨tasks, wholes, room, cands, before, picked, states, reasons⟩ := accounts
  exact ⟨tasks, wholes, room, cands, before.trans (perm.append_left _), picked, states, reasons⟩

/-- A turn of the snapshot moves one burst from the rest to the works. -/
theorem snapshot_moves (cand : BurstCandidate) (rest : List BurstCandidate) (used : ℤ)
    (lazy snapped : List IsolationWork) (read : SourceRead) :
    ∃ used' lazy' snapped', s.snapshot batch cand rest used lazy snapped read =
        .snapshotting batch rest used' lazy' snapped' ∧
      (cand :: rest ++ (lazy ++ snapped).map (·.cand)).Perm (rest ++ (lazy' ++ snapped').map (·.cand)) := by
  have lazily : ∀ work : IsolationWork, work.cand = cand →
      (cand :: rest ++ (lazy ++ snapped).map (·.cand)).Perm (rest ++ (lazy ++ [work] ++ snapped).map (·.cand)) := by
    rintro work rfl
    have moved := (@List.perm_middle _ work.cand (rest ++ lazy.map (·.cand)) (snapped.map (·.cand))).symm
    simpa using moved
  have snaps : ∀ work : IsolationWork, work.cand = cand →
      (cand :: rest ++ (lazy ++ snapped).map (·.cand)).Perm (rest ++ (lazy ++ (snapped ++ [work])).map (·.cand)) := by
    rintro work rfl
    have moved := (List.perm_append_singleton work.cand (rest ++ (lazy ++ snapped).map (·.cand))).symm
    simpa using moved
  unfold snapshot
  dsimp only
  split
  · split_ifs
    · exact ⟨_, _, _, rfl, lazily _ rfl⟩
    · refine ⟨_, _, _, rfl, snaps _ ?_⟩
      split <;> rfl
  · exact ⟨_, _, _, rfl, lazily _ rfl⟩

/-- A picked burst gets its state. -/
theorem Accounts.fate {cand : BurstCandidate} {state : BurstState} {names : List IsolationCounter}
    (accounts : s.Accounts held (cand :: unfated)) (explains : IsolationWork.Explains batch (state, names)) :
    Accounts { s with
      stats := (s.stats.countAll names).count (.state state) 1
      fates := s.fates ++ [⟨cand, batch.onRing, state⟩] } held unfated := by
  obtain ⟨tasks, wholes, room, cands, perm, picked, states, reasons⟩ := accounts
  obtain ⟨beside, explained⟩ := explains
  have kept : ∀ {name}, IsolationWork.aside name = false → s.stats.countAll names name = s.stats name :=
    fun part => beside.count_eq part
  refine ⟨tasks, wholes, room, ?_, ?_, ?_, fun other => ?_, ?_⟩
  · simp only [ne_eq, reduceCtorEq, not_false_eq_true, IsolationStats.count_of_ne]
    rw [kept rfl, kept rfl, kept rfl, kept rfl]
    exact cands
  · rw [List.map_append, List.append_assoc]
    exact perm
  · simp only [ne_eq, reduceCtorEq, not_false_eq_true, IsolationStats.count_of_ne]
    rw [kept rfl]
    exact picked
  · dsimp only
    rw [List.countP_append, List.countP_singleton, ← states]
    by_cases same : state = other
    · rw [same, IsolationStats.count_self, kept rfl, decide_eq_true rfl, if_pos rfl]
    · rw [IsolationStats.count_of_ne fun injected => same (IsolationCounter.state.inj injected).symm, kept rfl,
        decide_eq_false same, if_neg Bool.false_ne_true, Nat.add_zero]
  · simp only [ne_eq, reduceCtorEq, not_false_eq_true, IsolationStats.count_of_ne, IsolationStats.countAll_eq]
    rw [List.countP_append, List.countP_singleton, ← reasons]
    simp only [IsolationWork.reasons] at explained
    simp only [Bool.and_eq_true, decide_eq_true_eq]
    omega

theorem Accounts.isolate {work : IsolationWork} (outcome : IsolationOutcome)
    (accounts : s.Accounts held (work.cand :: unfated)) : (s.isolate batch work outcome).Accounts held unfated :=
  accounts.fate (@IsolationWork.one_explains batch work s.settings outcome)

theorem Held.none_add (held : Held) : Held.none.add held = held := by
  simp only [Held.add, Held.none, Nat.zero_add, List.nil_append]

theorem Held.add_none (held : Held) : held.add .none = held := by
  simp only [Held.add, Held.none, Nat.add_zero, List.append_nil]

theorem Accounts.swap {a b : Held} (accounts : s.Accounts (a.add b) unfated) : s.Accounts (b.add a) unfated := by
  obtain ⟨tasks, wholes, room, cands, perm, picked, states, reasons⟩ := accounts
  refine ⟨?_, ?_, room, ?_, perm, picked, states, reasons⟩
  · simp only [Held.add] at tasks ⊢
    omega
  · simp only [Held.add, List.countP_append] at wholes ⊢
    omega
  · simp only [Held.add] at cands ⊢
    omega

theorem Kept.start (kept : s.Kept) : s.start.Kept := by
  unfold IsolationStage.start
  split
  · rename_i absent
    rw [Kept, worker, absent] at kept
    exact kept
  · rename_i ended
    rw [Kept, worker, ended] at kept
    exact kept
  · exact kept

theorem Kept.stopping (kept : s.Kept) (goes : s.stopping s.control = some s') : s'.Kept := by
  have drains : ∀ {drain after next phase}, s.control.held = drain.held → s.drain drain = some (after, next) →
      phase.held = next.elim .none DrainPhase.held → Kept { after with control := phase } := by
    intro drain after next phase holds drained later
    rw [Kept, holds] at kept
    have accounts := (kept.swap.drain drained).swap
    have same : worker { after with control := phase } = s.worker := congrArg (·.getD .ended) (drain_frame drained).1.1
    rw [Kept, same, later]
    exact accounts
  cases control : s.control with
  | idle =>
    rw [control] at goes
    cases goes
  | setting =>
    rw [control] at goes
    obtain ⟨_, goes⟩ := Option.ite_none_right_eq_some.mp goes
    obtain rfl := Option.some.inj goes
    rw [Kept, control] at kept
    exact kept
  | draining drain =>
    rw [control] at goes
    obtain ⟨⟨after, next⟩, drained, rfl⟩ := Option.map_eq_some_iff.mp goes
    exact drains (by rw [control]; rfl) drained (by cases next <;> rfl)
  | putting =>
    rw [control] at goes
    obtain rfl := Option.some.inj goes
    rw [Kept, control] at kept
    cases put : s.putNowait .stop with
    | none => exact kept
    | some after =>
      have accounts := kept.put_stop put
      obtain ⟨_, goes⟩ := Option.ite_none_right_eq_some.mp put
      obtain rfl := Option.some.inj goes
      exact accounts
  | joining =>
    rw [control] at goes
    obtain rfl := Option.some.inj goes
    rw [Kept, control] at kept
    by_cases ended : s.thread = some .ended
    · rw [worker, ended] at kept
      rw [if_pos ended]
      exact kept
    · rw [if_neg ended]
      exact kept
  | drainingLast drain =>
    rw [control] at goes
    obtain ⟨⟨after, next⟩, drained, rfl⟩ := Option.map_eq_some_iff.mp goes
    exact drains (by rw [control]; rfl) drained (by cases next <;> rfl)

theorem Kept.work {phase : WorkerPhase} (kept : s.Kept) (thread : s.thread = some phase)
    (goes : s.work phase = some s') : s'.Kept := by
  have accounts : s.Accounts (phase.held.add s.control.held) phase.unfated := by
    rw [Kept, worker, thread] at kept
    exact kept
  cases phase with
  | looping =>
    obtain rfl := Option.some.inj goes
    rw [Kept, worker]
    by_cases stopped : s.stopEvent = true
    · rw [if_pos stopped]
      exact accounts
    · rw [if_neg stopped]
      exact accounts
  | waiting =>
    simp only [IsolationStage.work] at goes
    have free : s.Accounts s.control.held [] := (Held.none_add s.control.held) ▸ accounts
    split at goes
    case h_1 => cases goes
    case h_2 rest queue =>
      obtain rfl := Option.some.inj goes
      exact free.take queue
    case h_3 taken rest queue =>
      obtain rfl := Option.some.inj goes
      exact free.take queue
  | stopping =>
    obtain rfl := Option.some.inj goes
    exact accounts.task_done
  | gating taken => cases goes
  | snapshotting taken rest used lazy snapped =>
    cases rest with
    | nil =>
      obtain rfl := Option.some.inj goes
      exact accounts
    | cons => cases goes
  | isolating taken works =>
    cases works with
    | nil =>
      obtain rfl := Option.some.inj goes
      exact accounts
    | cons => cases goes
  | releasing taken =>
    obtain ⟨after, released, rfl⟩ := Option.map_eq_some_iff.mp goes
    have later := accounts.release released
    rw [← (release_frame released).2.1] at later
    exact later
  | finishing =>
    obtain rfl := Option.some.inj goes
    exact accounts.task_done
  | draining drain =>
    obtain ⟨⟨after, next⟩, drained, rfl⟩ := Option.map_eq_some_iff.mp goes
    have later := Accounts.drain accounts drained
    rw [← (drain_frame drained).1.2.1] at later
    cases next <;> exact later
  | exiting =>
    obtain rfl := Option.some.inj goes
    exact accounts
  | ended => cases goes

theorem Kept.step {act : Act} (kept : s.Kept) (goes : s.step act = some s') : s'.Kept := by
  cases act with
  | submits taken =>
    obtain ⟨free, goes⟩ := Option.ite_none_right_eq_some.mp goes
    obtain rfl := Option.some.inj goes
    obtain ⟨⟨thread, control, _⟩, _⟩ := submit_frame s taken
    rw [Kept, worker, thread, control]
    exact Accounts.submit kept (Option.isNone_iff_eq_none.mp free)
  | counts =>
    obtain ⟨taken, submitting, rfl⟩ := Option.map_eq_some_iff.mp goes
    exact Accounts.counted kept submitting
  | starts =>
    obtain ⟨_, goes⟩ := Option.ite_none_right_eq_some.mp goes
    obtain rfl := Option.some.inj goes
    exact kept.start
  | stops =>
    obtain ⟨idle, goes⟩ := Option.ite_none_right_eq_some.mp goes
    obtain rfl := Option.some.inj goes
    rw [Kept, idle] at kept
    split_ifs
    · rw [Kept, idle]
      exact kept
    · exact kept
  | controls => exact kept.stopping goes
  | works =>
    obtain ⟨phase, thread, goes⟩ := Option.bind_eq_some_iff.mp goes
    exact kept.work thread goes
  | gates clock =>
    simp only [IsolationStage.step] at goes
    split at goes
    case h_2 => cases goes
    case h_1 taken thread =>
      obtain rfl := Option.some.inj goes
      rw [Kept, worker, thread] at kept
      obtain ⟨picked, phase, control, accounts⟩ := Accounts.gated kept clock
      rw [Kept, worker, phase, control]
      rw [← List.append_nil picked] at accounts
      exact accounts
  | reads read =>
    simp only [IsolationStage.step] at goes
    split at goes
    case h_2 => cases goes
    case h_1 taken cand rest used lazy snapped thread =>
      obtain rfl := Option.some.inj goes
      rw [Kept, worker, thread] at kept
      obtain ⟨used', lazy', snapped', moves, perm⟩ :=
        @snapshot_moves s taken cand rest used lazy snapped read
      rw [Kept, worker, moves]
      exact Accounts.perm kept perm
  | isolates outcome =>
    simp only [IsolationStage.step] at goes
    split at goes
    case h_2 => cases goes
    case h_1 taken work works thread =>
      obtain rfl := Option.some.inj goes
      rw [Kept, worker, thread] at kept
      exact Accounts.isolate outcome kept

/-- After a stop that joined the thread in time nothing is left. -/
def Joined (s : IsolationStage) : Prop :=
  match s.control with
  | .idle => s.stopEvent = true → s.thread = none → s.queue = []
  | .setting | .draining _ | .putting | .joining => s.thread ≠ none
  | .drainingLast _ => True

theorem Joined.of_same (joined : s.Joined) (control : s'.control = s.control) (event : s'.stopEvent = s.stopEvent)
    (thread : s'.thread = none ↔ s.thread = none) (queue : s.stopEvent = true → s.thread = none → s'.queue = s.queue) :
    s'.Joined := by
  unfold Joined at joined ⊢
  rw [control]
  split at joined
  · intro stopped absent
    rw [event] at stopped
    rw [queue stopped (thread.mp absent)]
    exact joined stopped (thread.mp absent)
  all_goals first | exact mt thread.mp joined | trivial

/-- A step of the worker. -/
theorem Joined.works (joined : s.Joined) (alive : s.thread ≠ none) (still : s'.thread ≠ none)
    (control : s'.control = s.control) (event : s'.stopEvent = s.stopEvent) : s'.Joined :=
  joined.of_same control event ⟨fun absent => absurd absent still, fun absent => absurd absent alive⟩
    fun _ absent => absurd absent alive

theorem Joined.work {phase : WorkerPhase} (joined : s.Joined) (thread : s.thread = some phase)
    (goes : s.work phase = some s') : s'.Joined := by
  have alive : s.thread ≠ none := fun absent => nomatch thread.symm.trans absent
  cases phase with
  | looping | stopping | finishing | exiting =>
    obtain rfl := Option.some.inj goes
    exact joined.works alive nofun rfl rfl
  | waiting =>
    simp only [IsolationStage.work] at goes
    split at goes
    case h_1 => cases goes
    all_goals
      obtain rfl := Option.some.inj goes
      exact joined.works alive nofun rfl rfl
  | snapshotting taken rest used lazy snapped =>
    cases rest with
    | nil =>
      obtain rfl := Option.some.inj goes
      exact joined.works alive nofun rfl rfl
    | cons => cases goes
  | isolating taken works =>
    cases works with
    | nil =>
      obtain rfl := Option.some.inj goes
      exact joined.works alive nofun rfl rfl
    | cons => cases goes
  | releasing taken =>
    obtain ⟨after, released, rfl⟩ := Option.map_eq_some_iff.mp goes
    obtain ⟨_, control, event⟩ := release_frame released
    exact joined.works alive nofun control event
  | draining drain =>
    obtain ⟨⟨after, next⟩, drained, rfl⟩ := Option.map_eq_some_iff.mp goes
    obtain ⟨⟨_, control, event⟩, _⟩ := drain_frame drained
    exact joined.works alive nofun control event
  | gating | ended => cases goes

theorem Joined.stopping (joined : s.Joined) (goes : s.stopping s.control = some s') : s'.Joined := by
  unfold Joined at joined
  cases control : s.control with
  | idle =>
    rw [control] at goes
    cases goes
  | setting =>
    rw [control] at goes joined
    obtain ⟨_, goes⟩ := Option.ite_none_right_eq_some.mp goes
    obtain rfl := Option.some.inj goes
    exact joined
  | draining drain =>
    rw [control] at goes joined
    obtain ⟨⟨after, next⟩, drained, rfl⟩ := Option.map_eq_some_iff.mp goes
    obtain ⟨⟨thread, _, _⟩, _⟩ := drain_frame drained
    cases next <;> exact fun absent => joined (thread.symm.trans absent)
  | putting =>
    rw [control] at goes joined
    obtain rfl := Option.some.inj goes
    cases put : s.putNowait .stop with
    | none => exact joined
    | some after =>
      obtain ⟨_, goes⟩ := Option.ite_none_right_eq_some.mp put
      obtain rfl := Option.some.inj goes
      exact joined
  | joining =>
    rw [control] at goes joined
    obtain rfl := Option.some.inj goes
    split_ifs
    · trivial
    · exact fun _ absent => absurd absent joined
  | drainingLast drain =>
    rw [control] at goes
    obtain ⟨⟨after, next⟩, drained, rfl⟩ := Option.map_eq_some_iff.mp goes
    cases next with
    | none => exact fun _ _ => (drain_frame drained).2 rfl
    | some => trivial

theorem Joined.step {act : Act} (joined : s.Joined) (goes : s.step act = some s') : s'.Joined := by
  cases act with
  | submits taken =>
    obtain ⟨_, goes⟩ := Option.ite_none_right_eq_some.mp goes
    obtain rfl := Option.some.inj goes
    obtain ⟨⟨thread, control, event⟩, queue⟩ := submit_frame s taken
    exact joined.of_same control event (by rw [thread]) fun stopped _ => queue stopped
  | counts =>
    obtain ⟨taken, _, rfl⟩ := Option.map_eq_some_iff.mp goes
    exact joined
  | starts =>
    obtain ⟨idle, goes⟩ := Option.ite_none_right_eq_some.mp goes
    obtain rfl := Option.some.inj goes
    unfold IsolationStage.start
    split
    case h_3 => exact joined
    all_goals
      rw [Joined, idle]
      exact nofun
  | stops =>
    obtain ⟨_, goes⟩ := Option.ite_none_right_eq_some.mp goes
    obtain rfl := Option.some.inj goes
    split_ifs with absent
    · exact joined
    · exact fun none => absent (Option.isNone_iff_eq_none.mpr none)
  | controls => exact joined.stopping goes
  | works =>
    obtain ⟨phase, thread, goes⟩ := Option.bind_eq_some_iff.mp goes
    exact joined.work thread goes
  | gates clock =>
    simp only [IsolationStage.step] at goes
    split at goes
    case h_2 => cases goes
    case h_1 taken thread =>
      obtain rfl := Option.some.inj goes
      exact joined.works (fun absent => nomatch thread.symm.trans absent) nofun rfl rfl
  | reads read =>
    simp only [IsolationStage.step] at goes
    split at goes
    case h_2 => cases goes
    case h_1 taken cand rest used lazy snapped thread =>
      obtain rfl := Option.some.inj goes
      exact joined.works (fun absent => nomatch thread.symm.trans absent) nofun rfl rfl
  | isolates outcome =>
    simp only [IsolationStage.step] at goes
    split at goes
    case h_2 => cases goes
    case h_1 taken work works thread =>
      obtain rfl := Option.some.inj goes
      exact joined.works (fun absent => nomatch thread.symm.trans absent) nofun rfl rfl

end IsolationStage

end RFObserver
