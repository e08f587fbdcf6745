import RFObserver.Storage.GuardedWrite

namespace RFObserver

namespace DbJob

variable {e : Statement} {queue : List DbJob} {transaction more less : List Statement}

theorem mem_bound (member : e ∈ bound queue transaction) : e ∈ transaction ∨ .statement e ∈ queue := by
  induction queue generalizing transaction with
  | nil => cases member
  | cons job rest ih =>
    rcases List.mem_append.mp member with now | later
    · cases job with
      | commit => exact Or.inl now
      | statement | close => cases now
    · rcases ih later with old | queued
      · cases job with
        | statement new =>
          refine (List.mem_append.mp old).imp_right fun last => ?_
          rw [List.mem_singleton.mp last]
          exact List.mem_cons_self ..
        | commit | close => cases old
      · exact Or.inr (List.mem_cons_of_mem job queued)

theorem bound_subset (subset : less ⊆ more) : bound queue less ⊆ bound queue more := by
  induction queue generalizing less more with
  | nil => exact fun _ none => none
  | cons job rest ih =>
    intro e member
    rcases List.mem_append.mp member with now | later
    · cases job with
      | commit => exact List.mem_append_left _ (subset now)
      | statement | close => cases now
    · refine List.mem_append_right _ ?_
      cases job with
      | statement new => exact ih (List.append_subset.mpr ⟨List.subset_append_of_subset_left _ subset,
          List.subset_append_right ..⟩) later
      | commit | close => exact later

/-- An open transaction adds at most its own statements. -/
theorem bound_split (member : e ∈ bound queue (more ++ less)) : e ∈ more ∨ e ∈ bound queue less := by
  induction queue generalizing less with
  | nil => exact Or.inr member
  | cons job rest ih =>
    cases job with
    | statement new =>
      rw [bound, effect, List.append_assoc] at member
      exact ih member
    | commit =>
      rcases List.mem_append.mp member with now | later
      · exact (List.mem_append.mp now).imp_right (List.mem_append_left _)
      · exact Or.inr (List.mem_append_right _ later)
    | close => exact Or.inr member

/-- However its head ends, a queue commits no more than it was bound to. -/
theorem bound_work (job : DbJob) (ok : Bool)
    (member : e ∈ (job.effect ok transaction).1 ∨ e ∈ bound queue (job.effect ok transaction).2) :
    e ∈ bound (job :: queue) transaction := by
  cases ok with
  | true => exact List.mem_append.mpr member
  | false =>
    cases job with
    | statement new =>
      rcases member with none | later
      · cases none
      · exact List.mem_append_right _ (bound_subset (List.subset_append_left ..) later)
    | commit =>
      rcases member with none | later
      · cases none
      · rw [← List.append_nil (effect _ false transaction).2] at later
        exact List.mem_append.mpr (bound_split later)
    | close => exact List.mem_append.mpr member

/-- Only a commit behind them binds the statements of a queue. -/
theorem bound_queued (job : DbJob) (member : e ∈ bound (queue ++ [job]) transaction) :
    e ∈ bound queue transaction ∨ ∃ writer, job = .commit writer := by
  induction queue generalizing transaction with
  | nil =>
    cases job with
    | commit writer => exact Or.inr ⟨writer, rfl⟩
    | statement | close => rcases List.mem_append.mp member with none | none <;> cases none
  | cons head rest ih =>
    rcases List.mem_append.mp member with now | later
    · exact Or.inl (List.mem_append_left _ now)
    · exact (ih later).imp_left (List.mem_append_right _)

theorem mem_effect {ok : Bool} {job : DbJob}
    (member : e ∈ (job.effect ok transaction).1 ∨ e ∈ (job.effect ok transaction).2) :
    e ∈ transaction ∨ job = .statement e := by
  cases job <;> cases ok <;> simp_all [effect, eq_comm]

end DbJob

namespace GuardedWrite

variable {s : GuardedWrite} {a : Attempt} {n c d : Nat}

@[simp] theorem of_append (l m : List Statement) : of a (l ++ m) = of a l ++ of a m :=
  List.filter_append ..

theorem of_eq_nil {l : List Statement} : of a l = [] ↔ ∀ e ∈ l, e.writer ≠ some a := by
  simp [of]

theorem written_succ : written a (n + 1) = written a n ++ [⟨some a, n⟩] := by
  simp [written, List.range_succ]

/-- Nothing of the attempt is on the connection. -/
def Free (s : GuardedWrite) (a : Attempt) (c : Nat) : Prop :=
  (∀ e ∈ (s.connections c).transaction, e.writer ≠ some a) ∧ ∀ job ∈ (s.connections c).queue, job.writer ≠ some a

/-- Nothing of the attempt is anywhere. -/
def Absent (s : GuardedWrite) (a : Attempt) : Prop :=
  (∀ e ∈ s.table, e.writer ≠ some a) ∧ ∀ c, s.Free a c

/-- All of the attempt is committed. -/
def Done (s : GuardedWrite) (a : Attempt) : Prop :=
  of a s.table = written a (s.last + 1) ∧ ∀ c, s.Free a c

/-- The first `n` statements of the attempt are committed, or in the open
transaction of connection `c`. -/
def Holds (s : GuardedWrite) (a : Attempt) (n c : Nat) : Prop :=
  of a (s.table ++ (s.connections c).transaction) = written a n

/-- Job `n` of the attempt waits on connection `c`, before any close. -/
structure Waiting (s : GuardedWrite) (a : Attempt) (n c : Nat) : Prop where
  elsewhere : ∀ d ≠ c, s.Free a d
  within : n ≤ s.last + 1
  opened : c < s.opened
  holds : s.Holds a n c
  queued : ∃ ahead behind, (s.connections c).queue = ahead ++ s.job a n :: behind ∧
    (∀ job ∈ ahead, job.writer ≠ some a ∧ job ≠ .close) ∧ ∀ job ∈ behind, job.writer ≠ some a

/-- Statement `n` of the attempt was executed on connection `c`, which may have
been closed since. -/
structure Executed (s : GuardedWrite) (a : Attempt) (n c : Nat) : Prop where
  elsewhere : ∀ d ≠ c, s.Free a d
  opened : c < s.opened
  quiet : ∀ job ∈ (s.connections c).queue, job.writer ≠ some a
  holds : s.Holds a (n + 1) c ∨ s.db ≠ some c ∧ ∀ e ∈ (s.connections c).transaction, e.writer ≠ some a

structure Sound (s : GuardedWrite) : Prop where
  fresh : ∀ c, s.opened ≤ c → s.connections c = ⟨[], []⟩
  live : ∀ c, s.db = some c → c < s.opened ∧ .close ∉ (s.connections c).queue
  ended : ∀ a, s.call.ended a → s.Revocable a
  before : ∀ a, s.call.before a → s.Absent a
  waiting : ∀ a n c, s.call = .waiting a n c → s.Waiting a n c
  executed : ∀ a n c, s.call = .answered a n c true → n ≤ s.last → s.Executed a n c
  committed : ∀ a n c, s.call = .answered a n c true → s.last < n → s.Done a
  returned : ∀ a, s.call = .returned a → s.Done a

theorem Absent.revocable (absent : s.Absent a) : s.Revocable a := by
  refine ⟨absent.1, fun c _ e member => ?_⟩
  rcases DbJob.mem_bound member with old | queued
  · exact (absent.2 c).1 e old
  · exact (absent.2 c).2 _ queued

theorem Absent.of_eq (absent : s.Absent a) : of a s.table = [] := of_eq_nil.mpr absent.1

section Queue

variable {job : DbJob}

@[simp] theorem queue_other (other : d ≠ c) : (s.queue c job).connections d = s.connections d := by
  simp [queue, other]

@[simp] theorem queue_same : (s.queue c job).connections c =
    ⟨(s.connections c).queue ++ [job], (s.connections c).transaction⟩ := by
  simp [queue]

theorem Free.queue (free : s.Free a d) (foreign : job.writer ≠ some a) : (s.queue c job).Free a d := by
  by_cases here : d = c
  · subst d
    simp only [Free, queue_same, List.mem_append, List.mem_singleton]
    refine ⟨free.1, fun queued member => ?_⟩
    rcases member with old | rfl
    · exact free.2 queued old
    · exact foreign
  · simpa only [Free, queue_other here] using free

theorem Revocable.queue (revocable : s.Revocable a)
    (unbound : ∀ writer, job = .commit writer → ∀ e ∈ (s.connections c).statements, e.writer ≠ some a) :
    (s.queue c job).Revocable a := by
  refine ⟨revocable.1, fun d opened e member => ?_⟩
  by_cases here : d = c
  · subst d
    rw [queue_same] at member
    rcases DbJob.bound_queued job member with old | ⟨writer, isCommit⟩
    · exact revocable.2 c opened e old
    · refine unbound writer isCommit e (List.mem_append.mpr ?_)
      subst isCommit
      refine (DbJob.mem_bound member).imp_right fun queued => ?_
      rcases List.mem_append.mp queued with queued | isCommit
      · exact List.mem_filterMap.mpr ⟨_, queued, rfl⟩
      · cases List.mem_singleton.mp isCommit
  · rw [queue_other here] at member
    exact revocable.2 d opened e member

theorem Absent.queue (absent : s.Absent a) (foreign : job.writer ≠ some a) : (s.queue c job).Absent a :=
  ⟨absent.1, fun d => (absent.2 d).queue foreign⟩

theorem Done.queue (done : s.Done a) (foreign : job.writer ≠ some a) : (s.queue c job).Done a :=
  ⟨done.1, fun d => (done.2 d).queue foreign⟩

theorem Holds.queue (holds : s.Holds a n d) : (s.queue c job).Holds a n d := by
  by_cases here : d = c
  · subst d
    rwa [Holds, queue_same]
  · rwa [Holds, queue_other here]

theorem Waiting.queue (waiting : s.Waiting a n d) (foreign : job.writer ≠ some a) :
    (s.queue c job).Waiting a n d := by
  obtain ⟨ahead, behind, queue, clear, quiet⟩ := waiting.queued
  refine ⟨fun d other => (waiting.elsewhere d other).queue foreign, waiting.within, waiting.opened,
    waiting.holds.queue, ?_⟩
  by_cases here : d = c
  · subst d
    refine ⟨ahead, behind ++ [job], by rw [queue_same]; simp [queue, GuardedWrite.job, GuardedWrite.queue], clear, ?_⟩
    intro queued member
    rcases List.mem_append.mp member with old | new
    · exact quiet queued old
    · rw [List.mem_singleton.mp new]
      exact foreign
  · exact ⟨ahead, behind, by rw [queue_other here]; exact queue, clear, quiet⟩

theorem Executed.queue (executed : s.Executed a n d) (foreign : job.writer ≠ some a) :
    (s.queue c job).Executed a n d := by
  refine ⟨fun d other => (executed.elsewhere d other).queue foreign, executed.opened, ?_, ?_⟩
  · by_cases here : d = c
    · subst d
      intro queued member
      rw [queue_same] at member
      rcases List.mem_append.mp member with old | new
      · exact executed.quiet queued old
      · rw [List.mem_singleton.mp new]
        exact foreign
    · rw [queue_other here]
      exact executed.quiet
  · refine executed.holds.imp (fun holds => holds.queue) fun gone => ⟨gone.1, ?_⟩
    by_cases here : d = c
    · subst d
      rw [queue_same]
      exact gone.2
    · rw [queue_other here]
      exact gone.2

end Queue

section Work

variable {ok : Bool} {job : DbJob} {rest : List DbJob}

@[simp] theorem finish_other (other : d ≠ c) : (s.finish c ok job rest).connections d = s.connections d := by
  simp [finish, other]

@[simp] theorem finish_same : (s.finish c ok job rest).connections c =
    ⟨rest, (job.effect ok (s.connections c).transaction).2⟩ := by
  simp [finish]

theorem Free.effect (free : s.Free a c) (head : (s.connections c).queue = job :: rest) {e : Statement}
    (member : e ∈ (job.effect ok (s.connections c).transaction).1 ∨
      e ∈ (job.effect ok (s.connections c).transaction).2) : e.writer ≠ some a := by
  rcases DbJob.mem_effect member with old | rfl
  · exact free.1 e old
  · exact free.2 (.statement e) (by rw [head]; exact List.mem_cons_self ..)

theorem Free.finish (free : s.Free a d) (head : (s.connections c).queue = job :: rest) :
    (s.finish c ok job rest).Free a d := by
  by_cases here : d = c
  · subst d
    rw [Free, finish_same]
    refine ⟨fun e member => free.effect head (Or.inr member), fun queued member => free.2 queued ?_⟩
    rw [head]
    exact List.mem_cons_of_mem job member
  · rwa [Free, finish_other here]

theorem Revocable.finish (revocable : s.Revocable a) (opened : c < s.opened)
    (head : (s.connections c).queue = job :: rest) : (s.finish c ok job rest).Revocable a := by
  have bound : ∀ e, e ∈ (job.effect ok (s.connections c).transaction).1 ∨
      e ∈ DbJob.bound rest (job.effect ok (s.connections c).transaction).2 → e.writer ≠ some a := by
    intro e member
    have unbound := revocable.2 c opened e
    rw [head] at unbound
    exact unbound (DbJob.bound_work job ok member)
  refine ⟨fun e member => ?_, fun d open_ e member => ?_⟩
  · rcases List.mem_append.mp member with old | new
    · exact revocable.1 e old
    · exact bound e (Or.inl new)
  · by_cases here : d = c
    · subst d
      rw [finish_same] at member
      exact bound e (Or.inr member)
    · rw [finish_other here] at member
      exact revocable.2 d open_ e member

theorem Absent.finish (absent : s.Absent a) (head : (s.connections c).queue = job :: rest) :
    (s.finish c ok job rest).Absent a := by
  refine ⟨fun e member => ?_, fun d => (absent.2 d).finish head⟩
  rcases List.mem_append.mp member with old | new
  · exact absent.1 e old
  · exact (absent.2 c).effect head (Or.inl new)

/-- What another connection or another writer commits leaves the attempt's part of the table. -/
theorem Free.finish_table (free : s.Free a c) (head : (s.connections c).queue = job :: rest) :
    of a (s.finish c ok job rest).table = of a s.table := by
  have none : of a (job.effect ok (s.connections c).transaction).1 = [] :=
    of_eq_nil.mpr fun e member => free.effect head (Or.inl member)
  show of a (s.table ++ _) = _
  rw [of_append, none, List.append_nil]

theorem Done.finish (done : s.Done a) (head : (s.connections c).queue = job :: rest) :
    (s.finish c ok job rest).Done a :=
  ⟨((done.2 c).finish_table head).trans done.1, fun d => (done.2 d).finish head⟩

/-- Another's statement or commit moves nothing of the attempt out of reach. -/
theorem of_effect (foreign : job.writer ≠ some a) (noClose : job ≠ .close) (transaction : List Statement) :
    of a (job.effect ok transaction).1 ++ of a (job.effect ok transaction).2 = of a transaction := by
  cases job with
  | close => exact absurd rfl noClose
  | commit writer => cases ok <;> simp [DbJob.effect, of]
  | statement e =>
    have none : of a [e] = [] := of_eq_nil.mpr fun other member => by
      rw [List.mem_singleton.mp member]
      exact foreign
    cases ok with
    | false => simp [DbJob.effect, of]
    | true => simp only [DbJob.effect, of_append, none, List.append_nil]; rfl

theorem Holds.finish_elsewhere (holds : s.Holds a n d) (free : s.Free a c) (other : d ≠ c)
    (head : (s.connections c).queue = job :: rest) : (s.finish c ok job rest).Holds a n d := by
  rw [Holds, of_append, free.finish_table head, finish_other other, ← of_append]
  exact holds

theorem Holds.finish_foreign (holds : s.Holds a n c) (foreign : job.writer ≠ some a) (noClose : job ≠ .close) :
    (s.finish c ok job rest).Holds a n c := by
  rw [Holds, finish_same]
  show of a ((s.table ++ _) ++ _) = _
  rw [List.append_assoc, of_append, of_append, of_effect foreign noClose, ← of_append]
  exact holds

theorem Executed.finish (executed : s.Executed a n d) (head : (s.connections c).queue = job :: rest)
    (live : s.db = some c → .close ∉ (s.connections c).queue) : (s.finish c ok job rest).Executed a n d := by
  refine ⟨fun d other => (executed.elsewhere d other).finish head, executed.opened, ?_, ?_⟩
  · by_cases here : d = c
    · subst d
      intro queued member
      rw [finish_same] at member
      exact executed.quiet queued (by rw [head]; exact List.mem_cons_of_mem job member)
    · rw [finish_other here]
      exact executed.quiet
  · by_cases here : d = c
    · subst d
      have foreign := executed.quiet job (by rw [head]; exact List.mem_cons_self ..)
      rw [finish_same]
      rcases executed.holds with holds | ⟨gone, none⟩
      · by_cases closes : job = .close
        · subst job
          exact Or.inr ⟨fun current => live current (by rw [head]; exact List.mem_cons_self ..), nofun⟩
        · exact Or.inl (holds.finish_foreign foreign closes)
      · refine Or.inr ⟨gone, fun e member => ?_⟩
        rcases DbJob.mem_effect (Or.inr member) with old | rfl
        · exact none e old
        · exact foreign
    · rw [finish_other here]
      exact executed.holds.imp_left fun holds =>
        holds.finish_elsewhere (executed.elsewhere c (Ne.symm here)) here head

theorem Waiting.finish (waiting : s.Waiting a n d) (head : (s.connections c).queue = job :: rest)
    (notOwn : ¬ (d = c ∧ s.job a n = job)) : (s.finish c ok job rest).Waiting a n d := by
  by_cases here : d = c
  · subst d
    obtain ⟨ahead, behind, queue, clear, quiet⟩ := waiting.queued
    cases ahead with
    | nil =>
      rw [head] at queue
      exact absurd ⟨rfl, (List.cons.inj queue).1.symm⟩ notOwn
    | cons first ahead =>
      rw [head] at queue
      obtain ⟨same, tail⟩ := List.cons.inj queue
      have foreign := clear job (by rw [same]; exact List.mem_cons_self ..)
      refine ⟨fun d other => (waiting.elsewhere d other).finish head, waiting.within, waiting.opened,
        waiting.holds.finish_foreign foreign.1 foreign.2, ahead, behind, ?_, ?_, quiet⟩
      · rw [finish_same]
        exact tail
      · exact fun queued member => clear queued (List.mem_cons_of_mem first member)
  · refine ⟨fun d other => (waiting.elsewhere d other).finish head, waiting.within, waiting.opened,
      waiting.holds.finish_elsewhere (waiting.elsewhere c (Ne.symm here)) here head, ?_⟩
    rw [finish_other here]
    exact waiting.queued

theorem job_writer : (s.job a n).writer = some a := by
  unfold GuardedWrite.job
  split <;> rfl

/-- The awaited job is at the head: nothing of the attempt is behind it. -/
theorem Waiting.at_head (waiting : s.Waiting a n c) (head : (s.connections c).queue = s.job a n :: rest) :
    ∀ job ∈ rest, job.writer ≠ some a := by
  obtain ⟨ahead, behind, queue, clear, quiet⟩ := waiting.queued
  rw [head] at queue
  cases ahead with
  | nil =>
    obtain rfl := (List.cons.inj queue).2
    exact quiet
  | cons first ahead =>
    have foreign := (clear first (List.mem_cons_self ..)).1
    rw [← (List.cons.inj queue).1] at foreign
    exact absurd job_writer foreign

theorem Waiting.executes (waiting : s.Waiting a n c) (head : (s.connections c).queue = s.job a n :: rest)
    (statement : n ≤ s.last) : (s.finish c true (s.job a n) rest).Executed a n c := by
  have quiet := waiting.at_head head
  refine ⟨fun d other => (waiting.elsewhere d other).finish head, waiting.opened, ?_, Or.inl ?_⟩
  · rw [finish_same]
    exact quiet
  · have isStatement : s.job a n = .statement ⟨some a, n⟩ := if_pos statement
    rw [Holds, finish_same, isStatement]
    show of a ((s.table ++ []) ++ ((s.connections c).transaction ++ [_])) = _
    rw [List.append_nil, ← List.append_assoc, of_append, waiting.holds, written_succ]
    simp [of]

theorem Waiting.commits (waiting : s.Waiting a n c) (head : (s.connections c).queue = s.job a n :: rest)
    (last : s.last < n) : (s.finish c true (s.job a n) rest).Done a := by
  have quiet := waiting.at_head head
  have isCommit : s.job a n = .commit (some a) := if_neg (by omega)
  have complete : n = s.last + 1 := by have := waiting.within; omega
  have holds := waiting.holds
  rw [complete] at holds
  rw [isCommit] at head ⊢
  refine ⟨holds, fun d => ?_⟩
  by_cases here : d = c
  · subst d
    rw [Free, finish_same]
    exact ⟨nofun, quiet⟩
  · exact (waiting.elsewhere d here).finish head

end Work

theorem Sound.create (last : Nat) : (create last).Sound where
  fresh _ _ := rfl
  live c live := by
    obtain rfl := Option.some.inj live
    exact ⟨Nat.one_pos, List.not_mem_nil⟩
  ended _ never := Bool.noConfusion never
  before _ _ := ⟨nofun, fun _ => ⟨nofun, nofun⟩⟩
  waiting _ _ _ never := GuardCall.noConfusion never
  executed _ _ _ never := GuardCall.noConfusion never
  committed _ _ _ never := GuardCall.noConfusion never
  returned _ never := GuardCall.noConfusion never

theorem GuardCall.stages {call : GuardCall} (current : call.current = some a) (w : Attempt) :
    w = a ∨ call.before w ∨ call.ended w := by
  cases call <;> cases current <;> cases a <;> cases w <;> simp [GuardCall.before, GuardCall.ended]

/-- A new state of the coroutine that awaits no job. -/
theorem Sound.settle (sound : s.Sound) {call : GuardCall} (expect : Option Nat) (opening : Option Bool)
    (awaits : call = .timedOut ∨ call = .connecting ∨ call = .raised ∨ ∃ a, call = .starting a)
    (ended : ∀ a, call.ended a → s.Revocable a) (before : ∀ a, call.before a → s.call.before a) :
    ({ s with call, expect, opening } : GuardedWrite).Sound := by
  refine ⟨sound.fresh, sound.live, ended, fun a still => sound.before a (before a still), ?_, ?_, ?_, ?_⟩
  all_goals
    intros
    rcases awaits with rfl | rfl | rfl | ⟨_, rfl⟩ <;> contradiction

/-- The attempt under way ends in an exception. -/
theorem Sound.raise (sound : s.Sound) (current : s.call.current = some a) (revocable : s.Revocable a) :
    ({ s with call := .raised } : GuardedWrite).Sound := by
  refine sound.settle s.expect s.opening (Or.inr (Or.inr (Or.inl rfl))) (fun w _ => ?_) nofun
  rcases GuardCall.stages current w with rfl | before | ended
  · exact revocable
  · exact (sound.before w before).revocable
  · exact sound.ended w ended

theorem Sound.connected (sound : s.Sound) : s.connected.Sound := by
  refine ⟨fun c unopened => sound.fresh c (Nat.le_of_succ_le unopened), fun c live => ?_, fun a ended => ?_,
    sound.before, fun a n c call => ?_, fun a n c call within => ?_, sound.committed, sound.returned⟩
  · obtain rfl : s.opened = c := Option.some.inj live
    refine ⟨Nat.lt_succ_self _, ?_⟩
    rw [show s.connected.connections = s.connections from rfl, sound.fresh s.opened le_rfl]
    exact List.not_mem_nil
  · refine ⟨(sound.ended a ended).1, fun c opened => ?_⟩
    rcases Nat.lt_succ_iff_lt_or_eq.mp opened with old | rfl
    · exact (sound.ended a ended).2 c old
    · rw [show s.connected.connections = s.connections from rfl, sound.fresh s.opened le_rfl]
      exact nofun
  · have waiting := sound.waiting a n c call
    exact ⟨waiting.elsewhere, waiting.within, Nat.lt_succ_of_lt waiting.opened, waiting.holds, waiting.queued⟩
  · have executed := sound.executed a n c call within
    refine ⟨executed.elsewhere, Nat.lt_succ_of_lt executed.opened, executed.quiet, executed.holds.imp_right ?_⟩
    refine fun gone => ⟨fun live => ?_, gone.2⟩
    have same : s.opened = c := Option.some.inj live
    have := executed.opened
    omega

theorem Sound.disconnect (sound : s.Sound) (opening : Option Bool) :
    ({ s with db := none, opening } : GuardedWrite).Sound := by
  refine ⟨sound.fresh, nofun, sound.ended, sound.before, fun a n c call => ?_, fun a n c call within => ?_,
    sound.committed, sound.returned⟩
  · have waiting := sound.waiting a n c call
    exact ⟨waiting.elsewhere, waiting.within, waiting.opened, waiting.holds, waiting.queued⟩
  · have executed := sound.executed a n c call within
    exact ⟨executed.elsewhere, executed.opened, executed.quiet, executed.holds.imp_right fun gone => ⟨nofun, gone.2⟩⟩

/-- A job of another user, or the close of an abandoned connection. -/
theorem Sound.queue {job : DbJob} (sound : s.Sound) (opened : c < s.opened) (other : job.writer = none)
    (stays : s.db = some c → job ≠ .close) (commit : ∀ writer, job = .commit writer → s.Unburdened c) :
    (s.queue c job).Sound := by
  have foreign : ∀ a, job.writer ≠ some a := by simp [other]
  refine ⟨fun d unopened => ?_, fun d current => ?_, fun a ended => ?_, fun a before => ?_, fun a n d call => ?_,
    fun a n d call within => ?_, fun a n d call beyond => ?_, fun a call => ?_⟩
  · have away : d ≠ c := by
      have : s.opened ≤ d := unopened
      omega
    rw [queue_other away]
    exact sound.fresh d unopened
  · refine ⟨(sound.live d current).1, fun close => ?_⟩
    by_cases here : d = c
    · subst d
      rw [queue_same] at close
      rcases List.mem_append.mp close with old | new
      · exact (sound.live c current).2 old
      · exact stays current (List.mem_singleton.mp new).symm
    · rw [queue_other here] at close
      exact (sound.live d current).2 close
  · refine (sound.ended a ended).queue fun writer isCommit e member isOwn => ?_
    have clear := commit writer isCommit e member a isOwn
    rw [show s.call.ended a = true from ended] at clear
    cases clear
  · exact (sound.before a before).queue (foreign a)
  · exact (sound.waiting a n d call).queue (foreign a)
  · exact (sound.executed a n d call within).queue (foreign a)
  · exact (sound.committed a n d call beyond).queue (foreign a)
  · exact (sound.returned a call).queue (foreign a)

theorem Sound.abandon (sound : s.Sound) (own : Bool) : (s.abandon own).Sound := by
  unfold GuardedWrite.abandon
  split
  · rename_i gone
    simpa only [← gone] using sound.disconnect (some own)
  · rename_i c live
    exact (sound.disconnect (some own)).queue (sound.live c live).1 rfl nofun nofun

@[simp] theorem abandon_call (own : Bool) : (s.abandon own).call = s.call := by
  unfold GuardedWrite.abandon
  split <;> rfl

theorem Sound.unlocked (sound : s.Sound) : ({ s with opening := none } : GuardedWrite).Sound := by
  refine ⟨sound.fresh, sound.live, sound.ended, sound.before, fun a n c call => ?_, fun a n c call within => ?_,
    sound.committed, sound.returned⟩
  · have waiting := sound.waiting a n c call
    exact ⟨waiting.elsewhere, waiting.within, waiting.opened, waiting.holds, waiting.queued⟩
  · have executed := sound.executed a n c call within
    exact ⟨executed.elsewhere, executed.opened, executed.quiet, executed.holds⟩

/-- The reconnect is over, whoever made it. -/
theorem Sound.retry (sound : s.Sound) (opening : Option Bool) (call : s.call = .timedOut ∨ s.call = .connecting) :
    ({ s with call := .starting .second, opening } : GuardedWrite).Sound := by
  refine sound.settle s.expect opening (Or.inr (Or.inr (Or.inr ⟨_, rfl⟩))) (fun w ended => sound.ended w ?_) ?_
  · rcases call with call | call <;> rw [call] <;> exact ended
  · intro w before
    rcases call with call | call <;> rw [call] <;> cases w <;> simp_all [GuardCall.before]

theorem Sound.giveUp (sound : s.Sound) (opening : Option Bool) (call : s.call = .timedOut ∨ s.call = .connecting) :
    ({ s with call := .raised, opening } : GuardedWrite).Sound := by
  refine sound.settle s.expect opening (Or.inr (Or.inr (Or.inl rfl))) (fun w _ => ?_) nofun
  cases w with
  | first => exact sound.ended .first (by rcases call with call | call <;> rw [call] <;> rfl)
  | second => exact (sound.before .second (by rcases call with call | call <;> rw [call] <;> rfl)).revocable

/-- The coroutine goes on to job `n` of its attempt. -/
theorem Sound.issue (sound : s.Sound) (current : s.call.current = some a) (idle : ∀ n c, s.call ≠ .waiting a n c)
    (within : n ≤ s.last + 1) (gone : s.db = none → s.Revocable a)
    (ready : ∀ d, s.db = some d → (∀ c ≠ d, s.Free a c) ∧ (∀ job ∈ (s.connections d).queue, job.writer ≠ some a) ∧
      s.Holds a n d ∧ (n = s.last + 1 → s.Unburdened d)) : (s.issue a n).Sound := by
  unfold GuardedWrite.issue
  split
  · rename_i none
    exact sound.raise current (gone none)
  · rename_i d live
    obtain ⟨elsewhere, quiet, holds, unburdened⟩ := ready d live
    have opened := (sound.live d live).1
    have noClose := (sound.live d live).2
    have stages : ∀ w, ((GuardCall.waiting a n d).ended w → s.call.ended w) ∧
        ((GuardCall.waiting a n d).before w → s.call.before w ∧ w ≠ a) := by
      intro w
      cases call : s.call <;> rw [call] at current idle <;> cases current <;> cases a <;> cases w <;>
        simp_all [GuardCall.before, GuardCall.ended]
    refine ⟨fun c unopened => ?_, fun c same => ?_, fun w ended => ?_, fun w before => ?_, fun w m c call => ?_,
      nofun, nofun, nofun⟩
    · have away : c ≠ d := by
        have : s.opened ≤ c := unopened
        omega
      exact (queue_other away).trans (sound.fresh c unopened)
    · obtain rfl : d = c := Option.some.inj (live.symm.trans same)
      refine ⟨opened, fun close => ?_⟩
      rcases List.mem_append.mp (queue_same ▸ close) with old | new
      · exact noClose old
      · have writer := job_writer (s := s) (a := a) (n := n)
        rw [← List.mem_singleton.mp new] at writer
        cases writer
    · have ended := (stages w).1 ended
      refine (sound.ended w ended).queue fun writer isCommit e member isOwn => ?_
      have last : n = s.last + 1 := by
        by_contra before
        rw [GuardedWrite.job, if_pos (by omega)] at isCommit
        cases isCommit
      rw [unburdened last e member w isOwn] at ended
      cases ended
    · obtain ⟨before, other⟩ := (stages w).2 before
      exact (sound.before w before).queue (by rw [job_writer]; simpa using Ne.symm other)
    · obtain ⟨rfl, rfl, rfl⟩ := GuardCall.waiting.inj call
      refine ⟨fun c other => ?_, within, opened, holds.queue, (s.connections d).queue, [], ?_, ?_, nofun⟩
      · have free : (s.queue d (s.job a n)).Free a c := by
          rw [Free, queue_other other]
          exact elsewhere c other
        exact free
      · exact congrArg DbConnection.queue queue_same
      · exact fun job member => ⟨quiet job member, fun close => noClose (close ▸ member)⟩

theorem finish_call (ok : Bool) (job : DbJob) (rest : List DbJob) :
    ((s.finish c ok job rest).call = s.call ∧ ∀ a n d, s.call = .waiting a n d → ¬ (d = c ∧ s.job a n = job)) ∨
      ∃ a n, s.call = .waiting a n c ∧ s.job a n = job ∧ (s.finish c ok job rest).call = .answered a n c ok := by
  unfold GuardedWrite.finish
  cases call : s.call with
  | waiting a n d =>
    by_cases own : d = c ∧ s.job a n = job
    · exact Or.inr ⟨a, n, by rw [own.1], own.2, if_pos own⟩
    · refine Or.inl ⟨if_neg own, fun a' n' d' same => ?_⟩
      obtain ⟨rfl, rfl, rfl⟩ := GuardCall.waiting.inj same
      exact own
  | _ => exact Or.inl ⟨rfl, nofun⟩

theorem Sound.finish {ok : Bool} {job : DbJob} {rest : List DbJob} (sound : s.Sound)
    (head : (s.connections c).queue = job :: rest) : (s.finish c ok job rest).Sound := by
  have opened : c < s.opened := by
    by_contra unopened
    rw [sound.fresh c (by omega)] at head
    cases head
  have stages : ∀ w, (s.finish c ok job rest).call.ended w = s.call.ended w ∧
      (s.finish c ok job rest).call.before w = s.call.before w := by
    intro w
    rcases finish_call ok job rest (s := s) (c := c) with
      ⟨same, _⟩ | ⟨a, n, call, _, answered⟩
    · rw [same]
      exact ⟨rfl, rfl⟩
    · rw [answered, call]
      exact ⟨rfl, rfl⟩
  refine ⟨fun d unopened => ?_, fun d live => ?_, fun a ended => ?_, fun a before => ?_, fun a n d call => ?_,
    fun a n d call within => ?_, fun a n d call beyond => ?_, fun a call => ?_⟩
  · have away : d ≠ c := by
      have : s.opened ≤ d := unopened
      omega
    rw [finish_other away]
    exact sound.fresh d unopened
  · refine ⟨(sound.live d live).1, fun close => (sound.live d live).2 ?_⟩
    by_cases here : d = c
    · subst d
      rw [finish_same] at close
      rw [head]
      exact List.mem_cons_of_mem job close
    · rwa [finish_other here] at close
  · rw [(stages a).1] at ended
    exact (sound.ended a ended).finish opened head
  · rw [(stages a).2] at before
    exact (sound.before a before).finish head
  · rcases finish_call ok job rest (s := s) (c := c) with
      ⟨same, notOwn⟩ | ⟨_, _, _, _, answered⟩
    · rw [same] at call
      exact (sound.waiting a n d call).finish head (notOwn a n d call)
    · rw [answered] at call
      cases call
  · rcases finish_call ok job rest (s := s) (c := c) with
      ⟨same, _⟩ | ⟨a', n', waiting, rfl, answered⟩
    · rw [same] at call
      exact (sound.executed a n d call within).finish head fun live => (sound.live c live).2
    · rw [answered] at call
      obtain ⟨rfl, rfl, rfl, rfl⟩ := GuardCall.answered.inj call
      exact (sound.waiting a' n' c waiting).executes head within
  · rcases finish_call ok job rest (s := s) (c := c) with
      ⟨same, _⟩ | ⟨a', n', waiting, rfl, answered⟩
    · rw [same] at call
      exact (sound.committed a n d call beyond).finish head
    · rw [answered] at call
      obtain ⟨rfl, rfl, rfl, rfl⟩ := GuardCall.answered.inj call
      exact (sound.waiting a' n' c waiting).commits head beyond
  · rcases finish_call ok job rest (s := s) (c := c) with
      ⟨same, _⟩ | ⟨_, _, _, _, answered⟩
    · rw [same] at call
      exact (sound.returned a call).finish head
    · rw [answered] at call
      cases call

/-- After an answered statement the attempt is on the connection it goes on with. -/
theorem Sound.resumes (sound : s.Sound) (call : s.call = .answered a n c true) (within : n ≤ s.last)
    (continues : s.Continues a n c s.db) : (s.issue a (n + 1)).Sound := by
  have executed := sound.executed a n c call within
  refine sound.issue (by rw [call]; rfl) (by rw [call]; nofun) (by omega) (fun gone => ?_) fun d live => ?_
  · rwa [gone] at continues
  · rw [live] at continues
    obtain ⟨place, unburdened⟩ := continues
    by_cases stays : d = c
    · subst stays
      refine ⟨executed.elsewhere, executed.quiet, ?_, fun last => unburdened (by omega)⟩
      exact executed.holds.resolve_right fun gone => gone.1 live
    · have complete := place.resolve_left stays
      have none : ∀ e ∈ (s.connections c).transaction, e.writer ≠ some a := by
        rcases executed.holds with holds | gone
        · rw [Holds, of_append, complete] at holds
          exact of_eq_nil.mp (List.append_right_eq_self.mp holds)
        · exact gone.2
      have free : ∀ d, s.Free a d := by
        intro d
        by_cases here : d = c
        · exact here ▸ ⟨none, executed.quiet⟩
        · exact executed.elsewhere d here
      refine ⟨fun c _ => free c, (free d).2, ?_, fun last => unburdened (by omega)⟩
      rw [Holds, of_append, complete, of_eq_nil.mpr (free d).1, List.append_nil]

theorem Sound.begin (sound : s.Sound) (call : s.call = .starting a) : (s.issue a 0).Sound := by
  have absent := sound.before a (by rw [call]; simp [GuardCall.before])
  refine sound.issue (by rw [call]; rfl) (by rw [call]; nofun) (Nat.zero_le _) (fun _ => absent.revocable) ?_
  refine fun d _ => ⟨fun c _ => absent.2 c, (absent.2 d).2, ?_, fun last => by omega⟩
  rw [Holds, of_append, absent.of_eq, of_eq_nil.mpr (absent.2 d).1]
  rfl

theorem Sound.step {act : Act} {s' : GuardedWrite} (sound : s.Sound) (orderly : Orderly s act)
    (goes : s.step act = some s') : s'.Sound := by
  cases act with
  | call =>
    obtain ⟨idle, rfl⟩ := by simpa [GuardedWrite.step] using goes
    refine sound.settle s.db s.opening (Or.inr (Or.inr (Or.inr ⟨_, rfl⟩))) (fun a ended => ?_) fun a _ => by rw [idle]; rfl
    cases a <;> cases ended
  | begin =>
    cases call : s.call <;> simp only [GuardedWrite.step, call] at goes <;> try cases goes
    exact sound.begin call
  | work c ok =>
    cases head : (s.connections c).queue with
    | nil => simp [GuardedWrite.step, head] at goes
    | cons job rest =>
      obtain rfl : s.finish c ok job rest = s' := by
        cases job <;> simp only [GuardedWrite.step, head] at goes
        · split at goes <;> simp_all
        · exact Option.some.inj goes
        · exact Option.some.inj goes
      exact sound.finish head
  | resume =>
    cases call : s.call with
    | answered a n c ok =>
      have orderly : s.Resumes s.call := orderly
      rw [call] at orderly
      cases ok with
      | false =>
        obtain rfl : { s with call := .raised } = s' := by simpa [GuardedWrite.step, call] using goes
        exact sound.raise (by rw [call]; rfl) orderly
      | true =>
        simp only [GuardedWrite.step, call] at goes
        split at goes
        · rename_i within
          obtain rfl := Option.some.inj goes
          exact sound.resumes call within (orderly within)
        · rename_i beyond
          obtain rfl := Option.some.inj goes
          have done := sound.committed a n c call (by omega)
          refine ⟨sound.fresh, sound.live, fun w ended => sound.ended w ?_, fun w before => sound.before w ?_, nofun,
            nofun, nofun, fun w same => ?_⟩
          · rw [call]; exact ended
          · rw [call]; exact before
          · obtain rfl := GuardCall.returned.inj same
            exact done
    | _ => simp [GuardedWrite.step, call] at goes
  | expire =>
    cases current : s.call.current with
    | none => simp [GuardedWrite.step, current] at goes
    | some a =>
      have revocable := orderly a (by rw [current]; rfl)
      cases a with
      | first =>
        obtain rfl : { s with call := .timedOut } = s' := by simpa [GuardedWrite.step, current] using goes
        refine sound.settle s.expect s.opening (Or.inl rfl) (fun w ended => ?_) fun w before => ?_
        · obtain rfl : w = .first := by simpa [GuardCall.ended] using ended
          exact revocable
        · obtain rfl : w = .second := by simpa [GuardCall.before] using before
          cases call : s.call <;> rw [call] at current <;> cases current <;> rfl
      | second =>
        obtain rfl : { s with call := .raised } = s' := by simpa [GuardedWrite.step, current] using goes
        exact sound.raise current revocable
  | reconnect =>
    simp only [GuardedWrite.step] at goes
    split at goes
    · rename_i timedOut
      split at goes
      · obtain rfl := Option.some.inj goes
        have abandoned := sound.abandon true
        refine abandoned.settle _ _ (Or.inr (Or.inl rfl)) (fun w ended => abandoned.ended w ?_) fun w before => ?_
        · rw [abandon_call, timedOut.1]; exact ended
        · rw [abandon_call, timedOut.1]; exact before
      · obtain rfl := Option.some.inj goes
        exact sound.retry s.opening (Or.inl timedOut.1)
    · cases goes
  | connect =>
    obtain ⟨connecting, rfl⟩ := by simpa [GuardedWrite.step] using goes
    exact sound.connected.retry none (Or.inr connecting.1)
  | reconnectFails =>
    cases call : s.call with
    | timedOut =>
      obtain rfl : { s with call := .raised } = s' := by simpa [GuardedWrite.step, call] using goes
      exact sound.giveUp s.opening (Or.inl call)
    | connecting =>
      obtain rfl : { s with call := .raised, opening := none } = s' := by simpa [GuardedWrite.step, call] using goes
      exact sound.giveUp none (Or.inr call)
    | _ => simp [GuardedWrite.step, call] at goes
  | otherStatement place =>
    obtain ⟨c, live, rfl⟩ := Option.map_eq_some_iff.mp goes
    exact sound.queue (sound.live c live).1 rfl (fun _ => nofun) nofun
  | otherCommit =>
    obtain ⟨c, live, rfl⟩ := Option.map_eq_some_iff.mp goes
    exact sound.queue (sound.live c live).1 rfl (fun _ => nofun) fun _ _ => orderly c live
  | otherReconnect =>
    obtain ⟨_, rfl⟩ := by simpa [GuardedWrite.step] using goes
    exact sound.abandon false
  | otherConnect =>
    obtain ⟨_, rfl⟩ := by simpa [GuardedWrite.step] using goes
    exact sound.connected
  | otherReconnectFails =>
    obtain ⟨_, rfl⟩ := by simpa [GuardedWrite.step] using goes
    exact sound.unlocked

theorem Reach.sound {last : Nat} (reach : Reach Orderly last s) : s.Sound :=
  reach.invariant (.create last) fun _ _ _ sound orderly goes => sound.step orderly goes

@[simp] theorem issue_last : (s.issue a n).last = s.last := by
  unfold GuardedWrite.issue
  split <;> rfl

@[simp] theorem abandon_last (own : Bool) : (s.abandon own).last = s.last := by
  unfold GuardedWrite.abandon
  split <;> rfl

theorem step_last {act : Act} {s' : GuardedWrite} (goes : s.step act = some s') : s'.last = s.last := by
  cases act <;> simp only [GuardedWrite.step] at goes
  case otherStatement | otherCommit =>
    obtain ⟨c, _, rfl⟩ := Option.map_eq_some_iff.mp goes
    rfl
  all_goals
    repeat' split at goes
    all_goals cases goes
    all_goals first | rfl | simp only [issue_last, abandon_last]

theorem Reach.last_eq {last : Nat} (reach : Reach Orderly last s) : s.last = last :=
  reach.invariant (I := fun s => s.last = last) rfl fun _ _ _ same _ goes => (step_last goes).trans same

/-- The other attempt has nothing in the table. -/
theorem own_of_table (only : ∀ e ∈ s.table, ∀ b, e.writer = some b → b = a) :
    s.own = (of a s.table).map Statement.place := by
  have same : s.table.filter (fun e => e.writer ≠ none) = of a s.table := by
    refine List.filter_congr fun e member => ?_
    cases writer : e.writer with
    | none => rfl
    | some b => simp [only e member b writer]
  rw [own, same]

theorem Done.own (done : s.Done a) (only : ∀ e ∈ s.table, ∀ b, e.writer = some b → b = a) :
    s.own = List.range (s.last + 1) := by
  rw [own_of_table only, done.1, written, List.map_map]
  exact List.map_id _

theorem Sound.exactlyOnce (sound : s.Sound) : s.ExactlyOnce s.last := by
  refine ⟨fun a call => (sound.returned a call).own fun e member b writer => ?_, fun call => ?_⟩
  · by_contra other
    cases a with
    | first =>
      obtain rfl : b = .second := by cases b <;> trivial
      exact (sound.before .second (by rw [call]; rfl)).1 e member writer
    | second =>
      obtain rfl : b = .first := by cases b <;> trivial
      exact (sound.ended .first (by rw [call]; rfl)).1 e member writer
  · have nothing : s.table.filter (fun e => e.writer ≠ none) = [] := by
      refine List.filter_eq_nil_iff.mpr fun e member => ?_
      cases writer : e.writer with
      | none => simp
      | some a => exact absurd writer ((sound.ended a (by rw [call]; rfl)).1 e member)
    rw [GuardedWrite.own, nothing]
    rfl

/-- A guarded write takes effect exactly once in every run in which its attempts
end while they can still be taken back and keep to one connection. -/
theorem Reach.exactly_once {last : Nat} (reach : Reach Orderly last s) : s.ExactlyOnce last :=
  reach.last_eq ▸ reach.sound.exactlyOnce

/-- The statement stalls; the corpse runs it late and rolls it back. -/
def stalledStatement : List Act :=
  [.call, .begin, .expire, .reconnect, .connect, .begin, .work 0 true, .work 0 true, .work 1 true, .resume,
    .work 1 true, .resume]

theorem Reach.exactly_once_stalledStatement :
    ∃ s, Runs.follow step (create 0) stalledStatement = some s ∧ s.call = .returned .second ∧ s.ExactlyOnce 0 := by
  have meets : Runs.Meets step Orderly (create 0) stalledStatement := by decide +kernel
  have final : (Runs.follow step (create 0) stalledStatement).map call = some (.returned .second) := by decide +kernel
  obtain ⟨s, goes, call⟩ := Option.map_eq_some_iff.mp final
  exact ⟨s, goes, call, Reach.exactly_once (Runs.Reach.start.follow meets goes)⟩

/-- The commit stalls: the corpse commits the row and the retry inserts it again. -/
def stalledCommit : List Act :=
  [.call, .begin, .work 0 true, .resume, .expire, .reconnect, .connect, .work 0 true, .work 0 true, .begin,
    .work 1 true, .resume, .work 1 true, .resume]

theorem exactly_once_fails : ¬ ∀ s, Reach (fun _ _ => True) 0 s → s.ExactlyOnce 0 := by
  intro once
  have final : (Runs.follow step (create 0) stalledCommit).map (fun s => (s.call, s.own)) =
      some (.returned .second, [0, 0]) := by decide +kernel
  obtain ⟨s, goes, twice⟩ := Option.map_eq_some_iff.mp final
  have own := (once s (.of_follow goes)).1 .second (Prod.mk.inj twice).1
  rw [(Prod.mk.inj twice).2] at own
  cases own

end GuardedWrite
end RFObserver
