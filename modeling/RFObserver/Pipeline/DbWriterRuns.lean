import RFObserver.Pipeline.DbWriter

/-! The ordered writer accounts for every job, in every run in which nothing meets a `drain` past its wait. -/

namespace RFObserver

namespace OrderedDbWriter

/-- The accepted jobs that neither ran to their end nor were given up by a `drain`. -/
def OpenJob (s : OrderedDbWriter) (job : DbWrite) : Prop :=
  job ∈ s.accepted ∧ job ∉ s.ended ∧ ∀ d, job ∉ (s.drains d).given

/-- What the writer owes for its jobs: they start in submission order, one at a time and each at most once; every call
of `submit` is refused and counted, or its job ran to its end, or it is in the number of a `drain`, or it runs, or it
waits for a worker; and with no `drain` running the oldest open job's window start is the one shown. -/
structure Accounts (s : OrderedDbWriter) : Prop where
  order : s.started.Pairwise fun a b => a.id < b.id
  single : s.inFlight.length ≤ 1
  submitted : ∀ k < s.submissions, ∃ job ∈ s.refused ++ s.accepted, job.id = k
  dropped : s.dropped = s.refused.length
  accounted : ∀ job ∈ s.accepted, job ∈ s.ended ∨ (∃ d, job ∈ (s.drains d).given) ∨ job ∈ s.inFlight ∨
    (job ∈ s.q ∧ ∃ i, (s.tasks i).done = false)
  numbers : ∀ d, s.drains d ≠ .raised ∧ (s.drains d).discarded = (s.drains d).given.length
  oldest : (∀ d, (s.drains d).live = false) →
    (∀ start, s.oldestPendingStart = some start →
      ∃ job, s.OpenJob job ∧ job.windowStart = start ∧ ∀ other, s.OpenJob other → job.id ≤ other.id) ∧
    (s.oldestPendingStart = none → ∀ job, ¬ s.OpenJob job)

/-- No write is accepted while a `drain` is past its wait, no `drain` is called while another runs, and no job is
cancelled but by the `drain` that stops its worker. -/
def Orderly (s : OrderedDbWriter) : Act → Prop
  | .submit _ _ => s.full = false → ∀ d, (s.drains d).pastWait = false
  | .drain => ∀ d, (s.drains d).live = false
  | .endJob i how => how = .cancelled → (s.tasks i).cancelling
  | _ => True

/-- A job that no one waits for any more. -/
def Settled (s : OrderedDbWriter) (job : DbWrite) : Prop := job ∈ s.ended ∨ ∃ d, job ∈ (s.drains d).given

/-- The jobs that are left: in flight or queued. -/
def left (s : OrderedDbWriter) : List DbWrite := s.inFlight ++ s.q

/-- The books agree, whoever runs: what is left is the end of what was accepted. -/
structure Books (s : OrderedDbWriter) (closed : List DbWrite) : Prop where
  accepted : s.accepted = closed ++ s.left
  settled : ∀ job ∈ closed, s.Settled job
  ended : ∀ job ∈ s.ended, job ∈ closed
  returned : ∀ d, (s.drains d).live = false → ∀ job ∈ (s.drains d).given, job ∈ closed
  started : s.started.Sublist (closed ++ s.inFlight)
  ordered : s.accepted.Pairwise fun a b => a.id < b.id
  below : ∀ job ∈ s.accepted, job.id < s.submissions
  submitted : ∀ k < s.submissions, ∃ job ∈ s.refused ++ s.accepted, job.id = k
  pending : s.pendingStarts = s.left.map DbWrite.windowStart
  unfinished : s.unfinished = s.left.length
  busy : s.busy = !s.inFlight.isEmpty
  single : s.inFlight.length ≤ 1
  dropped : s.dropped = s.refused.length
  numbers : ∀ d, s.drains d ≠ .raised ∧ (s.drains d).discarded = (s.drains d).given.length
  known : ∀ d, ∀ job ∈ (s.drains d).given, job ∈ s.accepted
  uncalled : ∀ d, s.calls ≤ d → s.drains d = .returned 0 []

/-- No task and no `drain` runs. -/
structure Resting (s : OrderedDbWriter) : Prop where
  task : s.task = none
  tasks : ∀ j, (s.tasks j).done
  drains : ∀ d, (s.drains d).live = false
  empty : s.left = []

/-- The worker `i` serves the queue; a `drain` may wait for it. -/
structure Serving (s : OrderedDbWriter) (i : ℕ) : Prop where
  task : s.task = some i
  alive : (s.tasks i).done = false
  free : (s.tasks i).cancelling = false
  others : ∀ j, j ≠ i → (s.tasks j).done
  runs : s.inFlight = (s.tasks i).phase.jobs
  waits : ∀ d, (s.drains d).live → ∃ joined, s.drains d = .waiting joined ∧ (joined → s.left = [])
  one : ∀ d d', (s.drains d).live → (s.drains d').live → d = d'

/-- The `drain` `d` awaits the worker `i`, and has given up what is left. -/
structure Stopping (s : OrderedDbWriter) (d i : ℕ) : Prop where
  task : s.task = none
  others : ∀ j, j ≠ i → (s.tasks j).done
  sound : (s.tasks i).phase ≠ .failed
  runs : s.inFlight = (s.tasks i).phase.jobs
  stops : ∃ discarded given, s.drains d = .stopping i discarded given ∧ ∀ job ∈ s.left, job ∈ given
  one : ∀ d', (s.drains d').live → d' = d

/-- What every step keeps. -/
def Kept (s : OrderedDbWriter) : Prop :=
  (∃ closed, s.Books closed) ∧ (s.Resting ∨ (∃ i, s.Serving i) ∨ ∃ d i, s.Stopping d i)

variable {s : OrderedDbWriter} {closed : List DbWrite} {i d : ℕ}

theorem Books.nodup (books : s.Books closed) : s.accepted.Nodup := by
  refine books.ordered.imp fun less same => ?_
  rw [same] at less
  exact lt_irrefl _ less

/-- With no `drain` running the open jobs are the ones left. -/
theorem Books.openJob_iff (books : s.Books closed) (calm : ∀ d, (s.drains d).live = false) (job : DbWrite) :
    s.OpenJob job ↔ job ∈ s.left := by
  have apart := List.disjoint_of_nodup_append (books.accepted ▸ books.nodup)
  constructor
  · rintro ⟨accepted, ended, given⟩
    rw [books.accepted, List.mem_append] at accepted
    refine accepted.resolve_left fun done => ?_
    rcases books.settled job done with ran | ⟨d, counted⟩
    · exact ended ran
    · exact given d counted
  · intro member
    refine ⟨by rw [books.accepted]; exact List.mem_append_right _ member, fun ran => ?_, fun d counted => ?_⟩
    · exact apart (books.ended job ran) member
    · exact apart (books.returned d (calm d) job counted) member

/-- What is kept is what the writer owes. -/
theorem Kept.accounts (kept : s.Kept) : s.Accounts := by
  obtain ⟨⟨closed, books⟩, mode⟩ := kept
  have within : closed ++ s.inFlight <+: s.accepted := by
    rw [books.accepted, left, ← List.append_assoc]
    exact List.prefix_append ..
  refine ⟨books.ordered.sublist (books.started.trans within.sublist), books.single, books.submitted, books.dropped,
    fun job accepted => ?_, books.numbers, fun calm => ⟨fun start shown => ?_, fun none job is => ?_⟩⟩
  · rw [books.accepted, List.mem_append] at accepted
    rcases accepted with done | remains
    · rcases books.settled job done with ran | given
      · exact Or.inl ran
      · exact Or.inr (Or.inl given)
    · rcases mode with resting | ⟨i, serving⟩ | ⟨d, i, stopping⟩
      · rw [resting.empty] at remains
        cases remains
      · rcases List.mem_append.mp remains with flies | waits
        · exact Or.inr (Or.inr (Or.inl flies))
        · exact Or.inr (Or.inr (Or.inr ⟨waits, i, serving.alive⟩))
      · obtain ⟨discarded, given, stops, counted⟩ := stopping.stops
        exact Or.inr (Or.inl ⟨d, by rw [stops]; exact counted job remains⟩)
  · rw [oldestPendingStart, books.pending, List.head?_map, Option.map_eq_some_iff] at shown
    obtain ⟨job, first, rfl⟩ := shown
    obtain ⟨rest, split⟩ := List.head?_eq_some_iff.mp first
    refine ⟨job, (books.openJob_iff calm job).mpr (split ▸ List.mem_cons_self), rfl, fun other is => ?_⟩
    have member := (books.openJob_iff calm other).mp is
    rw [split] at member
    have ordered := (List.pairwise_append.mp (books.accepted ▸ books.ordered)).2.1
    rw [split, List.pairwise_cons] at ordered
    rcases List.mem_cons.mp member with rfl | later
    · exact le_rfl
    · exact (ordered.1 other later).le
  · rw [oldestPendingStart, books.pending, List.head?_map, Option.map_eq_none_iff, List.head?_eq_none_iff] at none
    have member := (books.openJob_iff calm job).mp is
    rw [none] at member
    cases member

section Woken

variable {drains drains' : ℕ → WriterDrain}

/-- The calls of `drain`, some of them woken. -/
def Woken (drains drains' : ℕ → WriterDrain) : Prop := ∀ d, drains' d = drains d ∨ drains' d = (drains d).wake

theorem Woken.given (woken : Woken drains drains') (d : ℕ) : (drains' d).given = (drains d).given := by
  rcases woken d with same | woke
  · rw [same]
  · rw [woke, WriterDrain.wake_given]

theorem Woken.discarded (woken : Woken drains drains') (d : ℕ) : (drains' d).discarded = (drains d).discarded := by
  rcases woken d with same | woke
  · rw [same]
  · rw [woke, WriterDrain.wake_discarded]

theorem Woken.live (woken : Woken drains drains') (d : ℕ) : (drains' d).live = (drains d).live := by
  rcases woken d with same | woke
  · rw [same]
  · rw [woke, WriterDrain.wake_live]

theorem Woken.raised_iff (woken : Woken drains drains') (d : ℕ) : drains' d = .raised ↔ drains d = .raised := by
  rcases woken d with same | woke
  · rw [same]
  · rw [woke, WriterDrain.wake_eq_raised]

theorem Woken.stopping (woken : Woken drains drains') {d task discarded : ℕ} {given : List DbWrite}
    (stops : drains d = .stopping task discarded given) : drains' d = .stopping task discarded given := by
  rcases woken d with same | woke
  · rw [same, stops]
  · rw [woke]
    exact WriterDrain.wake_eq_stopping.mpr stops

theorem Woken.returned (woken : Woken drains drains') {d discarded : ℕ} {given : List DbWrite}
    (ended : drains d = .returned discarded given) : drains' d = .returned discarded given := by
  rcases woken d with same | woke
  · rw [same, ended]
  · rw [woke, ended]
    rfl

theorem woken_ite (p : Prop) [Decidable p] (drains : ℕ → WriterDrain) :
    Woken drains (if p then fun d => (drains d).wake else drains) := by
  intro d
  split
  · exact Or.inr rfl
  · exact Or.inl rfl

end Woken

section Submit

/-- A refused job, whatever the warning. -/
theorem Kept.refuse (kept : s.Kept) (windowStart : ℤ) (warnedAt : Option ℚ) (droppedAtWarn : ℕ) : Kept { s with
    submissions := s.submissions + 1, dropped := s.dropped + 1, refused := s.refused ++ [⟨s.submissions, windowStart⟩],
    warnedAt := warnedAt, droppedAtWarn := droppedAtWarn } := by
  obtain ⟨⟨closed, books⟩, mode⟩ := kept
  refine ⟨⟨closed, { books with below := ?_, submitted := ?_, dropped := ?_ }⟩, ?_⟩
  · exact fun job accepted => Nat.lt_succ_of_lt (books.below job accepted)
  · intro k less
    rcases Nat.lt_succ_iff_lt_or_eq.mp less with before | rfl
    · obtain ⟨job, member, id⟩ := books.submitted k before
      refine ⟨job, ?_, id⟩
      simp only [List.mem_append] at member ⊢
      tauto
    · exact ⟨⟨s.submissions, windowStart⟩, by simp, rfl⟩
  · simp [books.dropped]
  · rcases mode with resting | ⟨i, serving⟩ | ⟨d, i, stopping⟩
    · exact Or.inl { resting with }
    · exact Or.inr (Or.inl ⟨i, { serving with }⟩)
    · exact Or.inr (Or.inr ⟨d, i, { stopping with }⟩)

/-- The queue with one more job. -/
def accept (s : OrderedDbWriter) (windowStart : ℤ) : OrderedDbWriter := { s with
  submissions := s.submissions + 1, q := s.q ++ [⟨s.submissions, windowStart⟩], unfinished := s.unfinished + 1,
  pendingStarts := s.pendingStarts ++ [windowStart], accepted := s.accepted ++ [⟨s.submissions, windowStart⟩] }

theorem left_accept (s : OrderedDbWriter) (windowStart : ℤ) :
    (s.accept windowStart).left = s.left ++ [⟨s.submissions, windowStart⟩] := by
  rw [left, accept, left, List.append_assoc]

theorem Books.accept (books : s.Books closed) (windowStart : ℤ) : (s.accept windowStart).Books closed := by
  refine { books with
    accepted := ?_, ordered := ?_, below := ?_, submitted := ?_, pending := ?_, unfinished := ?_,
    known := fun d job given => List.mem_append_left _ (books.known d job given) }
  · rw [left_accept, ← List.append_assoc, ← books.accepted]
    rfl
  · rw [OrderedDbWriter.accept, List.pairwise_append]
    refine ⟨books.ordered, List.pairwise_singleton .., fun job accepted other new => ?_⟩
    rw [List.mem_singleton.mp new]
    exact books.below job accepted
  · intro job member
    rcases List.mem_append.mp member with accepted | new
    · exact Nat.lt_succ_of_lt (books.below job accepted)
    · rw [List.mem_singleton.mp new]
      exact Nat.lt_succ_self _
  · intro k less
    rcases Nat.lt_succ_iff_lt_or_eq.mp less with before | rfl
    · obtain ⟨job, member, id⟩ := books.submitted k before
      refine ⟨job, ?_, id⟩
      simp only [OrderedDbWriter.accept, List.mem_append] at member ⊢
      tauto
    · exact ⟨⟨s.submissions, windowStart⟩, by simp [OrderedDbWriter.accept], rfl⟩
  · rw [left_accept, List.map_append, ← books.pending]
    rfl
  · rw [left_accept, List.length_append, ← books.unfinished]
    rfl

theorem Serving.not_idle (serving : s.Serving i) : s.idle = false := by
  rw [idle, serving.task]
  exact serving.alive

theorem Resting.idle (resting : s.Resting) : s.idle = true := by rw [OrderedDbWriter.idle, resting.task]

theorem Kept.submit (kept : s.Kept) (windowStart : ℤ) (now : ℚ) (orderly : s.Orderly (.submit windowStart now)) :
    (s.submit windowStart now).Kept := by
  by_cases full : s.full
  · have refused : s.submit windowStart now = OrderedDbWriter.warn { s with
        submissions := s.submissions + 1, dropped := s.dropped + 1,
        refused := s.refused ++ [⟨s.submissions, windowStart⟩] } now := if_pos full
    rw [refused, warn]
    split
    · exact kept.refuse windowStart _ _
    · exact kept.refuse windowStart s.warnedAt s.droppedAtWarn
  · have room := orderly (Bool.eq_false_iff.mpr full)
    have accepted : s.submit windowStart now =
        if (s.accept windowStart).idle then (s.accept windowStart).spawn else s.accept windowStart := if_neg full
    obtain ⟨⟨closed, books⟩, mode⟩ := kept
    rw [accepted]
    rcases mode with resting | ⟨i, serving⟩ | ⟨d, i, stopping⟩
    · have idle : (s.accept windowStart).idle = true := resting.idle
      rw [if_pos idle]
      refine ⟨⟨closed, { books.accept windowStart with }⟩, Or.inr (Or.inl ⟨s.spawned, ?_⟩)⟩
      have fresh : (s.accept windowStart).spawn.tasks s.spawned = { phase := .created, cancelling := false } :=
        Function.update_self ..
      refine ⟨rfl, by rw [fresh]; rfl, by rw [fresh], fun j other => ?_, ?_, fun d live => ?_, fun d d' live => ?_⟩
      · have kept : (s.accept windowStart).spawn.tasks j = s.tasks j := Function.update_of_ne other ..
        rw [kept]
        exact resting.tasks j
      · rw [fresh]
        exact (List.append_eq_nil_iff.mp resting.empty).1
      · exact absurd live (by rw [Bool.not_eq_true]; exact resting.drains d)
      · exact absurd live (by rw [Bool.not_eq_true]; exact resting.drains d)
    · have busy : (s.accept windowStart).idle = false := serving.not_idle
      rw [busy]
      refine ⟨⟨closed, books.accept windowStart⟩, Or.inr (Or.inl ⟨i, { serving with waits := fun d live => ?_ }⟩)⟩
      obtain ⟨joined, waits, -⟩ := serving.waits d live
      refine ⟨joined, waits, fun past => ?_⟩
      have calm := room d
      rw [waits, past] at calm
      cases calm
    · obtain ⟨discarded, given, stops, -⟩ := stopping.stops
      have calm := room d
      rw [stops] at calm
      cases calm

end Submit

section Work

/-- Putting a task somewhere else touches no books. -/
theorem Books.setTask (books : s.Books closed) (i : ℕ) (t : WriterTask) : (s.setTask i t).Books closed :=
  { books with }

theorem setTask_self (s : OrderedDbWriter) (i : ℕ) (t : WriterTask) : (s.setTask i t).tasks i = t :=
  Function.update_self ..

theorem setTask_of_ne (s : OrderedDbWriter) {i j : ℕ} (t : WriterTask) (other : j ≠ i) :
    (s.setTask i t).tasks j = s.tasks j := Function.update_of_ne other ..

theorem take_nil (empty : s.q = []) (i : ℕ) : s.take i = s.setTask i { phase := .getting, cancelling := false } := by
  rw [take, empty]

theorem take_cons {job : DbWrite} {rest : List DbWrite} (next : s.q = job :: rest) (i : ℕ) : s.take i =
    { s.setTask i { phase := .running job, cancelling := false } with
      q := rest, busy := true, started := s.started ++ [job], inFlight := s.inFlight ++ [job] } := by
  rw [take, next]

/-- Taking the next job starts it; nothing else is in flight. -/
theorem Books.take (books : s.Books closed) (free : s.inFlight = []) (i : ℕ) : (s.take i).Books closed := by
  cases next : s.q with
  | nil =>
    rw [take_nil next]
    exact books.setTask i _
  | cons job rest =>
    have same : s.left = [job] ++ rest := by rw [left, free, next]; rfl
    rw [take_cons next]
    have flies : s.inFlight ++ [job] = [job] := by rw [free, List.nil_append]
    refine { books with accepted := ?_, started := ?_, pending := ?_, unfinished := ?_, busy := ?_, single := ?_ }
    · simp only [left, flies]
      rw [← same]
      exact books.accepted
    · simp only [flies]
      have before := books.started
      rw [free, List.append_nil] at before
      exact before.append (List.Sublist.refl _)
    · simp only [left, flies]
      rw [← same]
      exact books.pending
    · simp only [left, flies]
      rw [← same]
      exact books.unfinished
    · simp only [flies]
      rfl
    · simp only [flies]
      exact le_rfl

/-- After a take the task runs what is in flight, and nothing but the task and the books has moved. -/
theorem take_runs (free : s.inFlight = []) (i : ℕ) :
    (s.take i).inFlight = ((s.take i).tasks i).phase.jobs ∧ ((s.take i).tasks i).done = false ∧
      ((s.take i).tasks i).cancelling = false ∧ (s.take i).left = s.left ∧ (s.take i).task = s.task ∧
      (s.take i).drains = s.drains ∧ ∀ j, j ≠ i → (s.take i).tasks j = s.tasks j := by
  cases next : s.q with
  | nil =>
    rw [take_nil next, setTask_self]
    exact ⟨free, rfl, rfl, rfl, rfl, rfl, fun j other => setTask_of_ne s _ other⟩
  | cons job rest =>
    have task : (s.take i).tasks i = { phase := .running job, cancelling := false } := by
      rw [take_cons next]
      exact setTask_self ..
    rw [task, take_cons next]
    refine ⟨by rw [free]; rfl, rfl, rfl, ?_, rfl, rfl, fun j other => setTask_of_ne s _ other⟩
    rw [left, left, next, free]
    rfl

/-- The worker that serves the queue goes on to its next job. -/
theorem Kept.take_serving (books : s.Books closed) (free : s.inFlight = []) (task : s.task = some i)
    (others : ∀ j, j ≠ i → (s.tasks j).done)
    (waits : ∀ d, (s.drains d).live → ∃ joined, s.drains d = .waiting joined ∧ (joined → s.left = []))
    (one : ∀ d d', (s.drains d).live → (s.drains d').live → d = d') : (s.take i).Kept := by
  obtain ⟨runs, alive, unflagged, same, kept, calls, rest⟩ := take_runs free i
  refine ⟨⟨closed, books.take free i⟩, Or.inr (Or.inl ⟨i, kept.trans task, alive, unflagged, fun j other => ?_, runs, ?_, ?_⟩)⟩
  · rw [rest j other]
    exact others j other
  · rw [calls, same]
    exact waits
  · rw [calls]
    exact one

/-- A worker that outlives its cancellation goes on, with jobs that are given up. -/
theorem Kept.take_stopping (books : s.Books closed) (free : s.inFlight = []) (task : s.task = none)
    (others : ∀ j, j ≠ i → (s.tasks j).done)
    (stops : ∃ discarded given, s.drains d = .stopping i discarded given ∧ ∀ job ∈ s.left, job ∈ given)
    (one : ∀ d', (s.drains d').live → d' = d) : (s.take i).Kept := by
  obtain ⟨runs, alive, unflagged, same, kept, calls, rest⟩ := take_runs free i
  refine ⟨⟨closed, books.take free i⟩, Or.inr (Or.inr ⟨d, i, kept.trans task, fun j other => ?_, ?_, runs, ?_, ?_⟩)⟩
  · rw [rest j other]
    exact others j other
  · intro failed
    rw [WriterTask.done, failed] at alive
    cases alive
  · rw [calls, same]
    exact stops
  · rw [calls]
    exact one

/-- What going on can do. -/
theorem wake_cases {s' : OrderedDbWriter} (goes : s.wake i = some s') :
    (s.tasks i).done = false ∧ (s.tasks i).phase.jobs = [] ∧
      (((s.tasks i).cancelling ∧ s' = s.setTask i { phase := .cancelled, cancelling := false }) ∨
        ((s.tasks i).cancelling = false ∧ s' = s.take i)) := by
  simp only [OrderedDbWriter.wake] at goes
  split at goes
  · case isTrue waits =>
    have idle : (s.tasks i).done = false ∧ (s.tasks i).phase.jobs = [] := by
      rw [WriterTask.done]
      rcases waits with created | getting
      · rw [created]
        exact ⟨rfl, rfl⟩
      · rw [getting]
        exact ⟨rfl, rfl⟩
    refine ⟨idle.1, idle.2, ?_⟩
    split at goes
    · case isTrue flagged => exact Or.inl ⟨flagged, (Option.some.inj goes).symm⟩
    · case isFalse unflagged =>
      refine Or.inr ⟨Bool.eq_false_iff.mpr unflagged, ?_⟩
      split at goes
      · cases goes
      · exact (Option.some.inj goes).symm
  · cases goes

theorem Kept.wake (kept : s.Kept) {s' : OrderedDbWriter} (goes : s.wake i = some s') : s'.Kept := by
  obtain ⟨alive, waits, next⟩ := wake_cases goes
  obtain ⟨⟨closed, books⟩, resting | ⟨k, serving⟩ | ⟨d, k, stopping⟩⟩ := kept
  · rw [resting.tasks i] at alive
    cases alive
  · obtain rfl : i = k := by
      by_contra other
      rw [serving.others i other] at alive
      cases alive
    obtain ⟨-, rfl⟩ := next.resolve_left fun flagged => by
      rw [serving.free] at flagged
      cases flagged.1
    exact Kept.take_serving books (serving.runs.trans waits) serving.task serving.others serving.waits serving.one
  · obtain rfl : i = k := by
      by_contra other
      rw [stopping.others i other] at alive
      cases alive
    rcases next with ⟨-, rfl⟩ | ⟨-, rfl⟩
    · refine ⟨⟨closed, books.setTask i _⟩, Or.inr (Or.inr ⟨d, i, { stopping with
        others := fun j other => ?_, sound := ?_, runs := ?_ }⟩)⟩
      · rw [setTask_of_ne s _ other]
        exact stopping.others j other
      · rw [setTask_self]
        exact WriterPhase.noConfusion
      · rw [setTask_self]
        exact stopping.runs.trans waits
    · exact Kept.take_stopping books (stopping.runs.trans waits) stopping.task stopping.others stopping.stops stopping.one

/-- The books once the job in flight is over: it ran to its end, or a `drain` has given it up. -/
def afterJob (s : OrderedDbWriter) (how : JobEnd) (job : DbWrite) : OrderedDbWriter :=
  OrderedDbWriter.taskDone { s with
    busy := false, inFlight := s.inFlight.erase job, pendingStarts := s.pendingStarts.tail,
    ended := if how = JobEnd.cancelled then s.ended else s.ended ++ [job] }

theorem afterJob_woken (s : OrderedDbWriter) (how : JobEnd) (job : DbWrite) :
    Woken s.drains (s.afterJob how job).drains := woken_ite (s.unfinished = 1) s.drains

theorem Books.afterJob (books : s.Books closed) {job : DbWrite} (flies : s.inFlight = [job]) {how : JobEnd}
    (given : how = .cancelled → ∃ d, job ∈ (s.drains d).given) : (s.afterJob how job).Books (closed ++ [job]) := by
  have woken := s.afterJob_woken how job
  have left : s.left = job :: s.q := by rw [OrderedDbWriter.left, flies]; rfl
  have landed : (s.afterJob how job).inFlight = [] := by
    rw [OrderedDbWriter.afterJob, taskDone]
    simp only [flies, List.erase_cons_head]
  have rest : (s.afterJob how job).left = s.q := by rw [OrderedDbWriter.left, landed]; rfl
  have ended : ∀ other, other ∈ s.ended → other ∈ (s.afterJob how job).ended := by
    intro other member
    simp only [OrderedDbWriter.afterJob, taskDone]
    split
    · exact member
    · exact List.mem_append_left _ member
  refine { books with
    accepted := ?_, settled := ?_, ended := ?_, returned := ?_, started := ?_, pending := ?_, unfinished := ?_, busy := ?_,
    single := ?_, numbers := ?_, known := ?_, uncalled := ?_ }
  · rw [rest, List.append_assoc, List.singleton_append, ← left]
    exact books.accepted
  · intro other member
    rcases List.mem_append.mp member with before | this
    · rcases books.settled other before with ran | ⟨d, counted⟩
      · exact Or.inl (ended other ran)
      · exact Or.inr ⟨d, by rw [woken.given]; exact counted⟩
    · obtain rfl := List.mem_singleton.mp this
      by_cases cancelled : how = .cancelled
      · obtain ⟨d, counted⟩ := given cancelled
        exact Or.inr ⟨d, by rw [woken.given]; exact counted⟩
      · refine Or.inl ?_
        simp only [OrderedDbWriter.afterJob, taskDone, if_neg cancelled]
        exact List.mem_append_right _ (List.mem_singleton_self _)
  · intro other ran
    simp only [OrderedDbWriter.afterJob, taskDone] at ran
    split at ran
    · exact List.mem_append_left _ (books.ended other ran)
    · rcases List.mem_append.mp ran with before | this
      · exact List.mem_append_left _ (books.ended other before)
      · exact List.mem_append_right _ this
  · intro d calm other counted
    rw [woken.live] at calm
    rw [woken.given] at counted
    exact List.mem_append_left _ (books.returned d calm other counted)
  · rw [landed, List.append_nil, ← flies]
    exact books.started
  · rw [rest]
    simp only [OrderedDbWriter.afterJob, taskDone, books.pending, left, List.map_cons, List.tail_cons]
  · rw [rest]
    simp only [OrderedDbWriter.afterJob, taskDone, books.unfinished, left, List.length_cons, Nat.add_sub_cancel]
  · rw [landed]
    rfl
  · rw [landed]
    exact Nat.zero_le _
  · intro d
    rw [Ne, woken.raised_iff, woken.discarded, woken.given]
    exact books.numbers d
  · intro d other counted
    rw [woken.given] at counted
    exact books.known d other counted
  · exact fun d fresh => woken.returned (books.uncalled d fresh)

/-- What the end of a job can do. -/
theorem Books.endJob_cases (books : s.Books closed) {how : JobEnd} {s' : OrderedDbWriter}
    (runs : s.inFlight = (s.tasks i).phase.jobs) (goes : s.endJob i how = some s') :
    ∃ job, (s.tasks i).phase = .running job ∧ s.inFlight = [job] ∧
      ((how = .cancelled ∧ s' = (s.afterJob how job).setTask i { phase := .cancelled, cancelling := false }) ∨
        (how ≠ .cancelled ∧ s' = (s.afterJob how job).take i)) := by
  rw [endJob] at goes
  split at goes
  · case h_1 job running =>
    have flies : s.inFlight = [job] := by rw [runs, running]; rfl
    have left : s.left = job :: s.q := by rw [OrderedDbWriter.left, flies]; rfl
    have pending : s.pendingStarts = job.windowStart :: s.q.map DbWrite.windowStart := by
      rw [books.pending, left, List.map_cons]
    have counted : s.unfinished ≠ 0 := by rw [books.unfinished, left]; exact Nat.succ_ne_zero _
    have after : s.afterJob how job = OrderedDbWriter.taskDone { s with
        busy := false, inFlight := s.inFlight.erase job, pendingStarts := s.q.map DbWrite.windowStart,
        ended := if how = JobEnd.cancelled then s.ended else s.ended ++ [job] } := by
      rw [OrderedDbWriter.afterJob, pending, List.tail_cons]
    refine ⟨job, running, flies, ?_⟩
    rw [after]
    rw [pending] at goes
    simp only [if_neg counted] at goes
    split at goes
    · case isTrue cancelled => exact Or.inl ⟨cancelled, by rw [if_pos cancelled]; exact (Option.some.inj goes).symm⟩
    · case isFalse ran => exact Or.inr ⟨ran, by rw [if_neg ran]; exact (Option.some.inj goes).symm⟩
  · cases goes

theorem afterJob_landed {job : DbWrite} (flies : s.inFlight = [job]) (how : JobEnd) :
    (s.afterJob how job).inFlight = [] := by
  simp only [afterJob, taskDone, flies, List.erase_cons_head]

/-- A call that waits is woken when nothing is left. -/
theorem Serving.waits_afterJob (serving : s.Serving i) (books : s.Books closed) {job : DbWrite}
    (flies : s.inFlight = [job]) (how : JobEnd) (live : ((s.afterJob how job).drains d).live) :
    ∃ joined, (s.afterJob how job).drains d = .waiting joined ∧ (joined → (s.afterJob how job).left = []) := by
  have woken := s.afterJob_woken how job
  rw [woken.live] at live
  obtain ⟨joined, waits, done⟩ := serving.waits d live
  have left : s.left = job :: s.q := by rw [OrderedDbWriter.left, flies]; rfl
  have unjoined : joined = false := Bool.eq_false_iff.mpr fun past => by
    have := done past
    rw [left] at this
    cases this
  have rest : (s.afterJob how job).left = s.q := by rw [OrderedDbWriter.left, afterJob_landed flies]; rfl
  have calls : (s.afterJob how job).drains d = if s.unfinished = 1 then (s.drains d).wake else s.drains d := by
    simp only [afterJob, taskDone]
    split <;> rfl
  rw [calls, waits, rest]
  split
  · case isTrue last =>
    rw [books.unfinished, left, List.length_cons] at last
    exact ⟨true, rfl, fun _ => List.eq_nil_of_length_eq_zero (by omega)⟩
  · exact ⟨joined, rfl, fun past => by rw [unjoined] at past; cases past⟩

theorem endJob_running {how : JobEnd} {s' : OrderedDbWriter} (goes : s.endJob i how = some s') :
    (s.tasks i).done = false := by
  rw [endJob] at goes
  split at goes
  · case h_1 job running =>
    rw [WriterTask.done, running]
    rfl
  · cases goes

theorem Kept.endJob (kept : s.Kept) {how : JobEnd} (orderly : s.Orderly (.endJob i how)) {s' : OrderedDbWriter}
    (goes : s.endJob i how = some s') : s'.Kept := by
  have alive := endJob_running goes
  obtain ⟨⟨closed, books⟩, resting | ⟨k, serving⟩ | ⟨d, k, stopping⟩⟩ := kept
  · rw [resting.tasks i] at alive
    cases alive
  · obtain rfl : i = k := by
      by_contra other
      rw [serving.others i other] at alive
      cases alive
    obtain ⟨job, -, flies, next⟩ := books.endJob_cases serving.runs goes
    have woken := s.afterJob_woken how job
    obtain ⟨ran, rfl⟩ := next.resolve_left fun cancelled => by
      have flagged := orderly cancelled.1
      rw [serving.free] at flagged
      cases flagged
    refine Kept.take_serving (books.afterJob flies fun cancelled => absurd cancelled ran) (afterJob_landed flies how)
      serving.task serving.others (fun d live => serving.waits_afterJob books flies how live) fun d d' live live' => ?_
    rw [woken.live] at live live'
    exact serving.one d d' live live'
  · obtain rfl : i = k := by
      by_contra other
      rw [stopping.others i other] at alive
      cases alive
    obtain ⟨job, -, flies, next⟩ := books.endJob_cases stopping.runs goes
    obtain ⟨discarded, given, stops, counted⟩ := stopping.stops
    have woken := s.afterJob_woken how job
    have left : s.left = job :: s.q := by rw [OrderedDbWriter.left, flies]; rfl
    have rest : (s.afterJob how job).left = s.q := by rw [OrderedDbWriter.left, afterJob_landed flies]; rfl
    have after : (s.afterJob how job).Books (closed ++ [job]) := books.afterJob flies fun _ =>
      ⟨d, by rw [stops, WriterDrain.given]; exact counted job (left ▸ List.mem_cons_self)⟩
    have still : ∃ discarded given, (s.afterJob how job).drains d = .stopping i discarded given ∧
        ∀ other ∈ (s.afterJob how job).left, other ∈ given := by
      refine ⟨discarded, given, woken.stopping stops, fun other member => counted other ?_⟩
      rw [rest] at member
      rw [left]
      exact List.mem_cons_of_mem _ member
    have one : ∀ d', ((s.afterJob how job).drains d').live → d' = d := fun d' live =>
      stopping.one d' (by rwa [woken.live] at live)
    rcases next with ⟨-, rfl⟩ | ⟨-, rfl⟩
    · refine ⟨⟨_, after.setTask i _⟩, Or.inr (Or.inr ⟨d, i, stopping.task, fun j other => ?_, ?_, ?_, still, one⟩)⟩
      · rw [setTask_of_ne _ _ other]
        exact stopping.others j other
      · rw [setTask_self]
        exact WriterPhase.noConfusion
      · rw [setTask_self]
        exact afterJob_landed flies how
    · exact Kept.take_stopping after (afterJob_landed flies how) stopping.task stopping.others still one

end Work

section Drain

/-- A call of `drain` that moves on loses none of the jobs that it gave up. -/
theorem Books.update (books : s.Books closed) {d : ℕ} (new : WriterDrain) (called : d < s.calls)
    (grows : ∀ job ∈ (s.drains d).given, job ∈ new.given) (known : ∀ job ∈ new.given, job ∈ s.accepted)
    (ended : new.live = false → ∀ job ∈ new.given, job ∈ closed) (sound : new ≠ .raised)
    (number : new.discarded = new.given.length) :
    Books { s with drains := Function.update s.drains d new } closed := by
  have here : ∀ d', Function.update s.drains d new d' = if d' = d then new else s.drains d' := fun d' => Function.update_apply ..
  refine { books with settled := ?_, returned := ?_, numbers := ?_, known := ?_, uncalled := ?_ }
  · intro job member
    rcases books.settled job member with ran | ⟨d', counted⟩
    · exact Or.inl ran
    · refine Or.inr ⟨d', ?_⟩
      simp only [here]
      split
      · case isTrue same =>
        rw [same] at counted
        exact grows job counted
      · exact counted
  · intro d' calm
    simp only [here] at calm ⊢
    split at calm
    · case isTrue same =>
      rw [if_pos same]
      exact ended calm
    · case isFalse other =>
      rw [if_neg other]
      exact books.returned d' calm
  · intro d'
    simp only [here]
    split
    · exact ⟨sound, number⟩
    · exact books.numbers d'
  · intro d'
    simp only [here]
    split
    · exact known
    · exact books.known d'
  · intro d' fresh
    simp only [here]
    split
    · case isTrue same => exact absurd called (by rw [← same]; exact not_lt.mpr fresh)
    · exact books.uncalled d' fresh

/-- A queue of given up jobs, emptied. -/
theorem Books.empty (books : s.Books closed) (free : s.inFlight = []) (counted : ∀ job ∈ s.q, s.Settled job)
    {drains : ℕ → WriterDrain} (woken : Woken s.drains drains) :
    Books { s with q := [], unfinished := 0, pendingStarts := [], drains := drains } s.accepted := by
  have settles : ∀ job, s.Settled job → Settled { s with q := [], unfinished := 0, pendingStarts := [], drains := drains } job := by
    rintro job (ran | ⟨d, given⟩)
    · exact Or.inl ran
    · exact Or.inr ⟨d, by rw [woken.given]; exact given⟩
  have within : ∀ job ∈ closed, job ∈ s.accepted := fun job member => by
    rw [books.accepted]
    exact List.mem_append_left _ member
  have nothing : left { s with q := [], unfinished := 0, pendingStarts := [], drains := drains } = [] := by
    rw [left, free]
    rfl
  refine { books with
    accepted := ?_, settled := ?_, ended := ?_, returned := ?_, started := ?_, pending := ?_, unfinished := ?_,
    numbers := ?_, known := ?_, uncalled := ?_ }
  · rw [nothing, List.append_nil]
  · intro job accepted
    rw [books.accepted, List.mem_append, left, free, List.nil_append] at accepted
    exact settles job (accepted.elim (books.settled job) (counted job))
  · exact fun job ran => within job (books.ended job ran)
  · intro d _ job given
    rw [woken.given] at given
    exact books.known d job given
  · rw [books.accepted, left, ← List.append_assoc, List.append_assoc]
    refine books.started.trans ?_
    rw [free, List.append_nil, List.append_nil, List.nil_append]
    exact List.sublist_append_left ..
  · rw [nothing]
    rfl
  · rw [nothing]
    rfl
  · intro d
    rw [Ne, woken.raised_iff, woken.discarded, woken.given]
    exact books.numbers d
  · intro d job given
    rw [woken.given] at given
    exact books.known d job given
  · exact fun d fresh => woken.returned (books.uncalled d fresh)

/-- A `drain` that ends: nothing is left. -/
theorem Kept.finish (books : s.Books closed) {discarded : ℕ} {given : List DbWrite} (called : d < s.calls)
    (task : s.task = none) (tasks : ∀ j, (s.tasks j).done) (free : s.inFlight = [])
    (one : ∀ d', (s.drains d').live → d' = d) (counted : ∀ job ∈ s.q, s.Settled job)
    (grows : ∀ job ∈ (s.drains d).given, job ∈ given) (known : ∀ job ∈ given, job ∈ s.accepted)
    (number : discarded = given.length) : (s.finish d discarded given).Kept := by
  have size : s.unfinished = s.q.length := by rw [books.unfinished, left, free, List.nil_append]
  have woken := woken_ite (0 < s.unfinished ∧ 0 < s.q.length ∧ s.unfinished ≤ s.q.length) s.drains
  have emptied : s.emptyQueue = { s with
      q := [], unfinished := 0, drains := if 0 < s.unfinished ∧ 0 < s.q.length ∧ s.unfinished ≤ s.q.length then
        fun d => (s.drains d).wake else s.drains } := by
    rw [emptyQueue, if_pos size.ge, size, Nat.sub_self]
  have ends : s.finish d discarded given = { s.emptyQueue with
      pendingStarts := [], drains := Function.update s.emptyQueue.drains d (.returned discarded given) } := if_pos size.ge
  rw [ends, emptied]
  generalize (if 0 < s.unfinished ∧ 0 < s.q.length ∧ s.unfinished ≤ s.q.length then
        fun d => (s.drains d).wake else s.drains) = drains at woken ⊢
  refine ⟨⟨s.accepted, ?_⟩, Or.inl ⟨task, tasks, fun d' => ?_, ?_⟩⟩
  · refine (books.empty free counted woken).update _ called ?_ known (fun _ => known) WriterDrain.noConfusion number
    intro job before
    exact grows job (by rwa [woken.given] at before)
  · simp only [Function.update_apply]
    split
    · rfl
    · case isFalse other =>
      rw [woken.live]
      exact Bool.eq_false_iff.mpr fun live => other (one d' live)
  · rw [left]
    exact List.append_eq_nil_iff.mpr ⟨free, rfl⟩

theorem Books.called (books : s.Books closed) (live : (s.drains d).live) : d < s.calls := by
  by_contra fresh
  rw [books.uncalled d (not_lt.mp fresh)] at live
  cases live

theorem Kept.stopped (kept : s.Kept) {s' : OrderedDbWriter} (goes : s.stopped d = some s') : s'.Kept := by
  rw [OrderedDbWriter.stopped] at goes
  split at goes
  · case h_1 i discarded given stops =>
    have live : (s.drains d).live := by rw [stops]; rfl
    obtain ⟨⟨closed, books⟩, resting | ⟨k, serving⟩ | ⟨d', k, stopping⟩⟩ := kept
    · rw [resting.drains d] at live
      cases live
    · obtain ⟨joined, waits, -⟩ := serving.waits d live
      rw [stops] at waits
      cases waits
    · obtain rfl := stopping.one d live
      obtain ⟨discarded', given', stops', counted⟩ := stopping.stops
      cases stops.symm.trans stops'
      split at goes
      · case isTrue ended =>
        cases goes
        have mine : (s.drains d).given = given := by rw [stops]; rfl
        refine Kept.finish books (books.called live) stopping.task (fun j => ?_) ?_ stopping.one (fun job waits => ?_)
          (fun job before => mine ▸ before) (fun job before => books.known d job (mine.symm ▸ before)) ?_
        · by_cases other : j = i
          · rw [other, WriterTask.done, ended]
            rfl
          · exact stopping.others j other
        · rw [stopping.runs, ended]
          rfl
        · exact Or.inr ⟨d, by rw [mine]; exact counted job (List.mem_append_right _ waits)⟩
        · have number := (books.numbers d).2
          rwa [stops] at number
      · split at goes
        · case isTrue failed => exact absurd failed stopping.sound
        · cases goes
  · cases goes

/-- A `drain` that is past its wait stops the worker, and what is left is in its number. -/
theorem Serving.stop (serving : s.Serving i) (books : s.Books closed) {discarded : ℕ} {given : List DbWrite} {joined : Bool}
    (waits : s.drains d = .waiting joined) (counted : ∀ job ∈ s.left, job ∈ given)
    (known : ∀ job ∈ given, job ∈ s.accepted) (number : discarded = given.length) :
    (s.stop d discarded given).Kept := by
  have live : (s.drains d).live := by rw [waits]; rfl
  have stops : s.stop d discarded given = { ({ s with task := none } : OrderedDbWriter).setTask i
      { s.tasks i with cancelling := true } with
        drains := Function.update s.drains d (.stopping i discarded given) } := by
    rw [OrderedDbWriter.stop, serving.not_idle, serving.task]
    rfl
  rw [stops]
  have grown := books.update (.stopping i discarded given) (books.called live)
    (fun job before => by rw [waits] at before; cases before) known (fun ended => by cases ended)
    WriterDrain.noConfusion number
  refine ⟨⟨closed, { grown with }⟩, Or.inr (Or.inr ⟨d, i, rfl, fun j other => ?_, ?_, ?_, ?_, fun d' live' => ?_⟩)⟩
  · exact (setTask_of_ne _ _ other).symm ▸ serving.others j other
  · intro failed
    have alive := serving.alive
    rw [setTask_self] at failed
    rw [WriterTask.done, failed] at alive
    cases alive
  · rw [setTask_self]
    exact serving.runs
  · exact ⟨discarded, given, Function.update_self .., counted⟩
  · simp only [Function.update_apply] at live'
    split at live'
    · assumption
    · exact serving.one d' d live' live

/-- Only a worker that serves has a `drain` waiting for it. -/
theorem Kept.waiting (kept : s.Kept) {joined : Bool} (waits : s.drains d = .waiting joined) :
    ∃ closed i, s.Books closed ∧ s.Serving i := by
  have live : (s.drains d).live := by rw [waits]; rfl
  obtain ⟨⟨closed, books⟩, resting | ⟨k, serving⟩ | ⟨d', k, stopping⟩⟩ := kept
  · rw [resting.drains d] at live
    cases live
  · exact ⟨closed, k, books, serving⟩
  · obtain rfl := stopping.one d live
    obtain ⟨discarded, given, stops, -⟩ := stopping.stops
    cases waits.symm.trans stops

theorem Kept.joined (kept : s.Kept) {s' : OrderedDbWriter} (goes : s.joined d = some s') : s'.Kept := by
  rw [OrderedDbWriter.joined] at goes
  split at goes
  · case isTrue waits =>
    obtain ⟨closed, i, books, serving⟩ := kept.waiting waits
    obtain ⟨joined, waits', done⟩ := serving.waits d (by rw [waits]; rfl)
    cases waits.symm.trans waits'
    cases goes
    refine serving.stop books waits (fun job member => ?_) (List.forall_mem_nil _) rfl
    rw [done rfl] at member
    exact member
  · cases goes

theorem Kept.timedOut (kept : s.Kept) {s' : OrderedDbWriter} (goes : s.timedOut d = some s') : s'.Kept := by
  rw [OrderedDbWriter.timedOut] at goes
  split at goes
  · case h_1 joined waits =>
    obtain ⟨closed, i, books, serving⟩ := kept.waiting waits
    cases goes
    refine serving.stop books waits (fun _ member => member) (fun job member => ?_) ?_
    · rw [books.accepted]
      exact List.mem_append_right _ member
    · have flying := books.single
      rw [books.busy, List.length_append]
      cases flies : s.inFlight with
      | nil => simp
      | cons job rest =>
        rw [flies, List.length_cons] at flying
        simp only [List.isEmpty_cons, Bool.not_false, if_true, List.length_cons]
        omega
  · cases goes

theorem Kept.drain (kept : s.Kept) (orderly : s.Orderly .drain) : s.drain.Kept := by
  obtain ⟨⟨closed, books⟩, mode⟩ := kept
  have next : ∀ task, Books { s with calls := s.calls + 1, task := task } closed := fun task =>
    { books with uncalled := fun d fresh => books.uncalled d (Nat.le_of_succ_le fresh) }
  have fresh : s.drains s.calls = .returned 0 [] := books.uncalled s.calls le_rfl
  have nothing : ∀ job ∈ (s.drains s.calls).given, job ∈ ([] : List DbWrite) := fun job member => by
    rw [fresh] at member
    exact member
  rcases mode with resting | ⟨i, serving⟩ | ⟨d, i, stopping⟩
  · obtain ⟨free, queue⟩ := List.append_eq_nil_iff.mp resting.empty
    have ends : s.drain = OrderedDbWriter.finish { s with calls := s.calls + 1, task := none } s.calls 0 [] :=
      (if_pos resting.idle).trans (if_pos resting.idle)
    rw [ends]
    refine Kept.finish (next none) (Nat.lt_succ_self _) rfl resting.tasks free (fun d live => ?_) (fun job waits => ?_)
      nothing (List.forall_mem_nil _) rfl
    · exact absurd live (by rw [Bool.not_eq_true]; exact resting.drains d)
    · rw [queue] at waits
      cases waits
  · have waits : s.drain = { s with
        calls := s.calls + 1, drains := Function.update s.drains s.calls (.waiting (s.unfinished == 0)) } :=
      if_neg (Bool.eq_false_iff.mp serving.not_idle)
    have only : ∀ d, (s.drain.drains d).live → d = s.calls := by
      intro d live
      by_contra other
      rw [waits] at live
      simp only [Function.update_of_ne other, orderly d] at live
      cases live
    have called := (next s.task).update (.waiting (s.unfinished == 0)) (Nat.lt_succ_self _) nothing
      (List.forall_mem_nil _) (fun ended => by cases ended) WriterDrain.noConfusion rfl
    have same : s.drain.drains s.calls = .waiting (s.unfinished == 0) := by
      rw [waits]
      exact Function.update_self ..
    refine ⟨⟨closed, by rw [waits]; exact called⟩, Or.inr (Or.inl ⟨i, ?_⟩)⟩
    have left : s.drain.left = s.left := by rw [waits]; rfl
    refine { task := by rw [waits]; exact serving.task, alive := by rw [waits]; exact serving.alive,
             free := by rw [waits]; exact serving.free, others := by rw [waits]; exact serving.others,
             runs := by rw [waits]; exact serving.runs, waits := fun d live => ?_, one := fun d d' live live' => ?_ }
    · rw [only d live, same, left]
      refine ⟨_, rfl, fun joined => List.eq_nil_of_length_eq_zero ?_⟩
      rw [← books.unfinished]
      exact eq_of_beq joined
    · rw [only d live, only d' live']
  · obtain ⟨discarded, given, stops, -⟩ := stopping.stops
    have calm := orderly d
    rw [stops] at calm
    cases calm

end Drain

theorem Kept.step (kept : s.Kept) {act : Act} {s' : OrderedDbWriter} (orderly : s.Orderly act)
    (goes : s.step act = some s') : s'.Kept := by
  cases act with
  | submit windowStart now =>
    cases goes
    exact kept.submit windowStart now orderly
  | wake i => exact kept.wake goes
  | endJob i how => exact kept.endJob orderly goes
  | drain =>
    cases goes
    exact kept.drain orderly
  | joined d => exact kept.joined goes
  | timedOut d => exact kept.timedOut goes
  | stopped d => exact kept.stopped goes

theorem new_kept (maxsize : ℕ) : (new maxsize).Kept := by
  refine ⟨⟨[], ?_⟩, Or.inl ⟨rfl, fun _ => rfl, fun _ => rfl, rfl⟩⟩
  exact
    { accepted := rfl
      settled := List.forall_mem_nil _
      ended := List.forall_mem_nil _
      returned := fun _ _ => List.forall_mem_nil _
      started := List.Sublist.refl _
      ordered := List.Pairwise.nil
      below := List.forall_mem_nil _
      submitted := fun _ less => absurd less (Nat.not_lt_zero _)
      pending := rfl
      unfinished := rfl
      busy := rfl
      single := Nat.zero_le _
      dropped := rfl
      numbers := fun _ => ⟨WriterDrain.noConfusion, rfl⟩
      known := fun _ => List.forall_mem_nil _
      uncalled := fun _ _ => rfl }

end OrderedDbWriter

end RFObserver
